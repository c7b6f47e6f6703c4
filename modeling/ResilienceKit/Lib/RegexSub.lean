import ResilienceKit.Lib.Regex

/-!
# RegexSub — replacing the matches of a pattern

`scan` cuts a text into what the leftmost, non-overlapping matches take and what they leave, `sub` puts
something in the place of each match.  `kept_of_render` goes back: a word of the new text that is alien to
what was put in was left as it is.
-/

namespace Regex

variable {α : Type}

/-! ### Cutting a text -/

/-- A symbol that no match took, or a match. -/
inductive Piece (α : Type)
  | kept (c : α)
  | hit (w : List α)

def Piece.isHit : Piece α → Bool
  | .kept _ => false
  | .hit _ => true

/-- The pieces of the text; `skip` symbols belong to the last match. -/
def scan (p : Pattern α) : Option α → ℕ → List α → List (Piece α)
  | _, _, [] => []
  | _, skip + 1, c :: s => scan p (some c) skip s
  | prev, 0, c :: s =>
    match p.first prev (c :: s) with
    | none => .kept c :: scan p (some c) 0 s
    | some rest =>
      .hit ((c :: s).take (s.length + 1 - rest.length)) :: scan p (some c) (s.length - rest.length) s

/-- The text that was cut. -/
def source : List (Piece α) → List α
  | [] => []
  | .kept c :: ps => c :: source ps
  | .hit w :: ps => w ++ source ps

/-- The text with something in the place of each match. -/
def render (repl : List α → List α) : List (Piece α) → List α
  | [] => []
  | .kept c :: ps => c :: render repl ps
  | .hit w :: ps => repl w ++ render repl ps

/-- `pattern.sub(repl, text)` -/
def sub (p : Pattern α) (repl : List α → List α) (s : List α) : List α := render repl (scan p none 0 s)

/-- The stretches between the matches; the first one goes on behind `a`. -/
def stretches (a : List α) : List (Piece α) → List (List α)
  | [] => [a]
  | .kept c :: ps => stretches (a ++ [c]) ps
  | .hit _ :: ps => a :: stretches [] ps

/-- What stands between the matches. -/
def split (p : Pattern α) (s : List α) : List (List α) := stretches [] (scan p none 0 s)

/-- What `scan` does, match by match. -/
inductive Scanned (p : Pattern α) : Option α → List α → List (Piece α) → Prop
  | nil (prev : Option α) : Scanned p prev [] []
  | keep {prev : Option α} {c : α} {s : List α} {ps : List (Piece α)} (none : p.first prev (c :: s) = none)
      (tail : Scanned p (some c) s ps) : Scanned p prev (c :: s) (.kept c :: ps)
  | hit {prev : Option α} {w rest : List α} {ps : List (Piece α)}
      (found : p.first prev (w ++ rest) = some rest) (matched : p.Match prev w rest)
      (tail : Scanned p w.getLast? rest ps) : Scanned p prev (w ++ rest) (.hit w :: ps)

section Scan

variable {p : Pattern α} {prev : Option α} {s w rest : List α} {ps : List (Piece α)}

theorem scan_skip (w rest : List α) (hw : w ≠ []) :
    scan p prev w.length (w ++ rest) = scan p w.getLast? 0 rest := by
  induction w generalizing prev with
  | nil => exact absurd rfl hw
  | cons c w ih =>
    rw [List.length_cons, List.cons_append, scan]
    cases w with
    | nil => rfl
    | cons d w =>
      rw [ih (List.cons_ne_nil d w)]
      rfl

theorem scanned_scan (prev : Option α) (s : List α) : Scanned p prev s (scan p prev 0 s) := by
  induction hn : s.length using Nat.strong_induction_on generalizing prev s with
  | _ n ih =>
    cases s with
    | nil => exact .nil prev
    | cons c s =>
      unfold scan
      cases hf : p.first prev (c :: s) with
      | none => exact .keep hf (ih s.length (by rw [← hn]; simp) (some c) s rfl)
      | some rest =>
        obtain ⟨w, hw, hm⟩ := Pattern.match_of_first hf
        obtain ⟨d, v, rfl⟩ := List.exists_cons_of_ne_nil hm.ne_nil
        rw [List.cons_append, List.cons.injEq] at hw
        obtain ⟨rfl, rfl⟩ := hw
        have htake : (c :: (v ++ rest)).take ((v ++ rest).length + 1 - rest.length) = c :: v := by
          rw [List.length_append, show v.length + rest.length + 1 - rest.length = (c :: v).length by
            rw [List.length_cons]; omega]
          exact List.take_left
        have hskip : (v ++ rest).length - rest.length = v.length := by simp
        have htail : scan p (some c) v.length (v ++ rest) = scan p (c :: v).getLast? 0 rest := by
          cases v with
          | nil => rfl
          | cons d v =>
            rw [scan_skip _ _ (List.cons_ne_nil d v)]
            rfl
        dsimp only
        rw [htake, hskip, htail]
        refine .hit hf hm (ih rest.length ?_ _ _ rfl)
        rw [← hn, List.length_cons, List.length_append]
        omega

theorem Scanned.source_eq (h : Scanned p prev s ps) : source ps = s := by
  induction h with
  | nil prev => rfl
  | keep none tail ih => rw [source, ih]
  | hit found matched tail ih => rw [source, ih]

/-- The scan goes on behind a part of the pieces as it would from there. -/
theorem Scanned.split {pre post : List (Piece α)} (h : Scanned p prev s (pre ++ post)) :
    Scanned p ((source pre).getLast?.or prev) (source post) post := by
  induction pre generalizing prev s with
  | nil =>
    have hs := h.source_eq
    rw [List.nil_append] at h hs
    rw [hs]
    exact h
  | cons x pre ih =>
    rw [List.cons_append] at h
    cases h with
    | keep none tail =>
      have htail := ih tail
      rw [source, List.getLast?_cons]
      cases hl : (source pre).getLast? <;> simpa [hl] using htail
    | hit found matched tail =>
      rename_i w rest
      have htail := ih tail
      have hlast : w.getLast? = some (w.getLast matched.ne_nil) := List.getLast?_eq_some_getLast _
      rw [source, List.getLast?_append, hlast]
      cases hl : (source pre).getLast? <;> simpa [hl, hlast] using htail

theorem Scanned.of_hit {post : List (Piece α)} (h : Scanned p prev s (.hit w :: post)) :
    p.first prev s = some (source post) ∧ p.Match prev w (source post) := by
  cases h with
  | hit found matched tail =>
    rw [tail.source_eq]
    exact ⟨found, matched⟩

theorem Scanned.of_kept {post : List (Piece α)} {c : α} (h : Scanned p prev s (.kept c :: post)) :
    p.first prev s = none := by
  cases h with
  | keep none tail => exact none

/-- A match is what the engine finds at its place. -/
theorem Scanned.hit_spec {pre post : List (Piece α)} (h : Scanned p prev s (pre ++ .hit w :: post)) :
    p.first ((source pre).getLast?.or prev) (w ++ source post) = some (source post) ∧
      p.Match ((source pre).getLast?.or prev) w (source post) :=
  h.split.of_hit

/-- No match begins where a symbol is kept. -/
theorem Scanned.kept_spec {pre post : List (Piece α)} {c : α} (h : Scanned p prev s (pre ++ .kept c :: post)) :
    p.first ((source pre).getLast?.or prev) (c :: source post) = none :=
  h.split.of_kept

end Scan

/-! ### Pieces -/

section Pieces

variable {repl : List α → List α} {ps ps' : List (Piece α)}

@[simp] theorem source_append : source (ps ++ ps') = source ps ++ source ps' := by
  induction ps with
  | nil => rfl
  | cons x ps ih => cases x <;> simp [source, ih]

@[simp] theorem render_append : render repl (ps ++ ps') = render repl ps ++ render repl ps' := by
  induction ps with
  | nil => rfl
  | cons x ps ih => cases x <;> simp [render, ih]

@[simp] theorem source_kept (q : List α) : source (q.map Piece.kept) = q := by
  induction q with
  | nil => rfl
  | cons c q ih => rw [List.map_cons, source, ih]

@[simp] theorem render_kept (q : List α) : render repl (q.map Piece.kept) = q := by
  induction q with
  | nil => rfl
  | cons c q ih => rw [List.map_cons, render, ih]

/-- What stands in front of a place is the same symbol in either text, or the last piece is a match. -/
theorem last_cases (repl : List α → List α) (ps : List (Piece α)) : (∃ front w, ps = front ++ [.hit w]) ∨
    (render repl ps).getLast? = (source ps).getLast? := by
  rcases ps.eq_nil_or_concat' with rfl | ⟨front, x, rfl⟩
  · exact .inr rfl
  · cases x with
    | kept c => exact .inr (by simp [source, render])
    | hit w => exact .inl ⟨front, w, rfl⟩

theorem head_cases (repl : List α → List α) (ps : List (Piece α)) : (∃ w back, ps = .hit w :: back) ∨
    (render repl ps).head? = (source ps).head? := by
  cases ps with
  | nil => exact .inr rfl
  | cons x back =>
    cases x with
    | kept c => exact .inr rfl
    | hit w => exact .inl ⟨w, back, rfl⟩

end Pieces

/-! ### Masks -/

/-- A word that neither lies in the mask nor reaches into it. -/
structure Alien (m q : List α) : Prop where
  head : ∀ c ∈ m.head?, c ∉ q
  last : ∀ c ∈ m.getLast?, c ∉ q
  other : ∃ c ∈ q, c ∉ m

section Masks

variable {m q a b : List α} {ps : List (Piece α)}

theorem kept_of_prefix (hm : m ≠ []) (hhead : ∀ c ∈ m.head?, c ∉ q) (h : render (fun _ => m) ps = q ++ b) :
    ∃ back, ps = q.map .kept ++ back ∧ render (fun _ => m) back = b := by
  induction q generalizing ps with
  | nil => exact ⟨ps, rfl, h⟩
  | cons c q ih =>
    cases ps with
    | nil => cases h
    | cons x ps =>
      cases x with
      | kept d =>
        rw [render, List.cons_append, List.cons.injEq] at h
        obtain ⟨rfl, h⟩ := h
        obtain ⟨back, rfl, hback⟩ := ih (fun c hc hmem => hhead c hc (List.mem_cons_of_mem _ hmem)) h
        exact ⟨back, rfl, hback⟩
      | hit w =>
        obtain ⟨d, m, rfl⟩ := List.exists_cons_of_ne_nil hm
        rw [render, List.cons_append, List.cons_append, List.cons.injEq] at h
        exact absurd (h.1 ▸ List.mem_cons_self) (hhead d rfl)

/-- **A word that is alien to the mask** was there before. -/
theorem kept_of_render (hm : m ≠ []) (hq : Alien m q) (h : render (fun _ => m) ps = a ++ (q ++ b)) :
    ∃ front back, ps = front ++ (q.map .kept ++ back) ∧ render (fun _ => m) front = a ∧
      render (fun _ => m) back = b := by
  induction ps generalizing a with
  | nil =>
    obtain ⟨c, hc, -⟩ := hq.other
    have hnil : q = [] := by
      have := congrArg List.length h
      simp [render] at this
      exact List.eq_nil_of_length_eq_zero (by omega)
    rw [hnil] at hc
    cases hc
  | cons x ps ih =>
    cases x with
    | kept c =>
      cases a with
      | nil =>
        obtain ⟨back, hps, hback⟩ := kept_of_prefix hm hq.head h
        exact ⟨[], back, hps, rfl, hback⟩
      | cons d a =>
        rw [render, List.cons_append, List.cons.injEq] at h
        obtain ⟨rfl, h⟩ := h
        obtain ⟨front, back, rfl, hfront, hback⟩ := ih h
        exact ⟨.kept c :: front, back, rfl, by rw [render, hfront], hback⟩
    | hit w =>
      rw [render] at h
      rcases List.append_eq_append_iff.mp h with ⟨a', ha, hrest⟩ | ⟨m', hm', hrest⟩
      · obtain ⟨front, back, rfl, hfront, hback⟩ := ih hrest
        exact ⟨.hit w :: front, back, rfl, by rw [render, hfront, ha], hback⟩
      · cases m' with
        | nil =>
          obtain ⟨front, back, rfl, hfront, hback⟩ := ih (a := []) hrest.symm
          rw [List.append_nil] at hm'
          exact ⟨.hit w :: front, back, rfl, by rw [render, hfront, hm', List.append_nil], hback⟩
        | cons d m' =>
          -- the word would begin inside the mask, and stay in it or reach to its end
          exfalso
          rcases List.append_eq_append_iff.mp hrest with ⟨q', hq', -⟩ | ⟨q', hq', -⟩
          · obtain ⟨c, hc, hno⟩ := hq.other
            rw [hm', hq'] at hno
            exact hno (List.mem_append_right a (List.mem_append_left q' hc))
          · have hlast : m.getLast? = some ((d :: m').getLast (List.cons_ne_nil d m')) := by
              rw [hm', List.getLast?_append_cons, List.getLast?_eq_some_getLast]
            refine hq.last _ hlast ?_
            rw [hq']
            exact List.mem_append_left q' (List.getLast_mem _)

theorem kept_of_source_prefix (h : source ps = q ++ b)
    (hfar : ∀ front w back, ps = front ++ .hit w :: back → q.length ≤ (source front).length) :
    ∃ back, ps = q.map .kept ++ back ∧ source back = b := by
  induction q generalizing ps with
  | nil => exact ⟨ps, rfl, h⟩
  | cons c q ih =>
    cases ps with
    | nil => cases h
    | cons x ps =>
      cases x with
      | kept d =>
        rw [source, List.cons_append, List.cons.injEq] at h
        obtain ⟨rfl, h⟩ := h
        obtain ⟨back, rfl, hback⟩ := ih h fun front w back hps => by
          have := hfar (.kept d :: front) w back (by rw [hps]; rfl)
          simpa [source] using this
        exact ⟨back, rfl, hback⟩
      | hit w => exact absurd (hfar [] w ps rfl) (by simp [source])

/-- A word that no match overlaps is kept. -/
theorem kept_of_source (hq : q ≠ []) (h : source ps = a ++ (q ++ b))
    (hfar : ∀ front w back, ps = front ++ .hit w :: back →
      (source front).length + w.length ≤ a.length ∨ a.length + q.length ≤ (source front).length) :
    ∃ front back, ps = front ++ (q.map .kept ++ back) ∧ source front = a ∧ source back = b := by
  have hpos : 0 < q.length := List.length_pos_iff.mpr hq
  induction ps generalizing a with
  | nil =>
    have := congrArg List.length h
    simp only [source, List.length_nil, List.length_append] at this
    omega
  | cons x ps ih =>
    cases x with
    | kept c =>
      cases a with
      | nil =>
        obtain ⟨back, hps, hback⟩ := kept_of_source_prefix (q := q) (b := b) h fun front w back hps => by
          have hpos' : 0 < (source front).length := by
            cases front with
            | nil => cases hps
            | cons y front =>
              obtain ⟨rfl, -⟩ := List.cons.inj hps
              simp [source]
          have := hfar front w back hps
          simp only [List.length_nil] at this
          omega
        exact ⟨[], back, hps, rfl, hback⟩
      | cons d a =>
        rw [source, List.cons_append, List.cons.injEq] at h
        obtain ⟨rfl, h⟩ := h
        obtain ⟨front, back, rfl, hfront, hback⟩ := ih h fun front w back hps => by
          have := hfar (.kept c :: front) w back (by rw [hps]; rfl)
          simp only [source, List.length_cons] at this
          omega
        exact ⟨.kept c :: front, back, rfl, by rw [source, hfront], hback⟩
    | hit w =>
      have hw : w.length ≤ a.length := by
        have := hfar [] w ps rfl
        simp only [source, List.length_nil] at this
        omega
      rw [source] at h
      rcases List.append_eq_append_iff.mp h with ⟨a', rfl, hrest⟩ | ⟨w', hw', hrest⟩
      · obtain ⟨front, back, rfl, hfront, hback⟩ := ih hrest fun front v back hps => by
          have := hfar (.hit w :: front) v back (by rw [hps]; rfl)
          simp only [source, List.length_append] at this
          omega
        exact ⟨.hit w :: front, back, rfl, by rw [source, hfront], hback⟩
      · have hnil : w' = [] := by
          have := congrArg List.length hw'
          rw [List.length_append] at this
          exact List.eq_nil_of_length_eq_zero (by omega)
        subst hnil
        rw [List.append_nil] at hw'
        subst hw'
        obtain ⟨front, back, rfl, hfront, hback⟩ := ih (a := []) hrest.symm fun front v back hps => by
          have := hfar (.hit w :: front) v back (by rw [hps]; rfl)
          simp only [source, List.length_append, List.length_nil] at this ⊢
          omega
        exact ⟨.hit w :: front, back, rfl, by rw [source, hfront, List.append_nil], hback⟩

/-- A word that was left has nothing in common with a match. -/
theorem apart_of_kept {front back front' back' : List (Piece α)} {w : List α}
    (h : front ++ (q.map .kept ++ back) = front' ++ .hit w :: back') :
    (source front').length + w.length ≤ (source front).length ∨
      (source front).length + q.length ≤ (source front').length := by
  rcases List.append_eq_append_iff.mp h with ⟨mid, rfl, hmid⟩ | ⟨mid, rfl, hmid⟩
  · rcases List.append_eq_append_iff.mp hmid with ⟨more, rfl, -⟩ | ⟨more, hmore, hrest⟩
    · right
      simp only [source_append, source_kept, List.length_append]
      omega
    · cases more with
      | nil =>
        right
        rw [List.append_nil] at hmore
        rw [← hmore, source_append, source_kept, List.length_append]
      | cons x more =>
        obtain ⟨rfl, -⟩ := List.cons.inj hrest
        have hmem : Piece.hit w ∈ q.map Piece.kept := hmore ▸ List.mem_append_right mid List.mem_cons_self
        simp at hmem
  · cases mid with
    | nil =>
      cases q with
      | nil =>
        right
        simp
      | cons c q => cases hmid
    | cons x mid =>
      obtain ⟨rfl, -⟩ := List.cons.inj hmid
      left
      simp only [source_append, source, List.length_append]
      omega

end Masks

/-! ### What a scan guarantees -/

section Spec

variable {p : Pattern α} {s : List α} {ps : List (Piece α)}

/-- Every piece that was taken is a match. -/
def Hits (p : Pattern α) (ps : List (Piece α)) : Prop :=
  ∀ front w back, ps = front ++ .hit w :: back → p.Match (source front).getLast? w (source back)

/-- No match begins where a symbol was left. -/
def Clear (p : Pattern α) (ps : List (Piece α)) : Prop :=
  ∀ front c back, ps = front ++ .kept c :: back → ∀ w rest, c :: source back = w ++ rest →
    ¬ p.Match (source front).getLast? w rest

theorem hits_scan (p : Pattern α) (s : List α) : Hits p (scan p none 0 s) := by
  intro front w back hps
  have hs := scanned_scan (p := p) none s
  rw [hps] at hs
  simpa using hs.hit_spec.2

theorem clear_scan (p : Pattern α) (s : List α) : Clear p (scan p none 0 s) := by
  intro front c back hps
  have hs := scanned_scan (p := p) none s
  rw [hps] at hs
  simpa using Pattern.first_eq_none_iff.mp hs.kept_spec

theorem source_scan (p : Pattern α) (s : List α) : source (scan p none 0 s) = s :=
  (scanned_scan none s).source_eq

/-- A word of symbols that were left is no match. -/
theorem Clear.not_match (h : Clear p ps) {front back : List (Piece α)} {q : List α}
    (hps : ps = front ++ (q.map .kept ++ back)) : ¬ p.Match (source front).getLast? q (source back) := by
  intro hm
  obtain ⟨c, q, rfl⟩ := List.exists_cons_of_ne_nil hm.ne_nil
  refine h front c (q.map .kept ++ back) (by rw [hps]; rfl) (c :: q) (source back) ?_ hm
  rw [source_append, source_kept]
  rfl

/-- The matches that the check accepts are taken, the others are left. -/
def sift (check : List α → Bool) : List (Piece α) → List (Piece α)
  | [] => []
  | .kept c :: ps => .kept c :: sift check ps
  | .hit w :: ps => (if check w then [.hit w] else w.map .kept) ++ sift check ps

variable {check : List α → Bool}

theorem source_sift (check : List α → Bool) (ps : List (Piece α)) : source (sift check ps) = source ps := by
  induction ps with
  | nil => rfl
  | cons x ps ih =>
    cases x with
    | kept c => rw [sift, source, source, ih]
    | hit w =>
      rw [sift, source_append, ih]
      split_ifs
      · simp [source]
      · rw [source_kept, source]

theorem render_sift (m : List α) (check : List α → Bool) (ps : List (Piece α)) :
    render (fun _ => m) (sift check ps) = render (fun w => if check w then m else w) ps := by
  induction ps with
  | nil => rfl
  | cons x ps ih =>
    cases x with
    | kept c => rw [sift, render, render, ih]
    | hit w =>
      rw [sift, render_append, ih, render]
      split_ifs
      · simp [render]
      · rw [render_kept]

/-- What was taken stems from a match that the check accepts. -/
theorem sift_hit {front back : List (Piece α)} {w : List α} (h : sift check ps = front ++ .hit w :: back) :
    check w = true ∧ ∃ f b, ps = f ++ .hit w :: b ∧ source f = source front ∧ source b = source back := by
  induction ps generalizing front with
  | nil => simp [sift] at h
  | cons x ps ih =>
    cases x with
    | kept c =>
      cases front with
      | nil => cases h
      | cons y front =>
        rw [sift, List.cons_append, List.cons.injEq] at h
        obtain ⟨rfl, h⟩ := h
        obtain ⟨hw, f, b, rfl, hf, hb⟩ := ih h
        exact ⟨hw, .kept c :: f, b, rfl, by rw [source, source, hf], hb⟩
    | hit v =>
      rw [sift] at h
      split_ifs at h with hv
      · cases front with
        | nil =>
          rw [List.singleton_append, List.nil_append, List.cons.injEq, Piece.hit.injEq] at h
          obtain ⟨rfl, rfl⟩ := h
          exact ⟨hv, [], ps, rfl, rfl, (source_sift check ps).symm⟩
        | cons y front =>
          rw [List.singleton_append, List.cons_append, List.cons.injEq] at h
          obtain ⟨rfl, h⟩ := h
          obtain ⟨hw, f, b, rfl, hf, hb⟩ := ih h
          exact ⟨hw, .hit v :: f, b, rfl, by rw [source, source, hf], hb⟩
      · rcases List.append_eq_append_iff.mp h with ⟨front', rfl, hrest⟩ | ⟨v', hv', hrest⟩
        · obtain ⟨hw, f, b, rfl, hf, hb⟩ := ih hrest
          exact ⟨hw, .hit v :: f, b, rfl, by rw [source, source_append, source_kept, hf], hb⟩
        · cases v' with
          | nil =>
            have hstart : sift check ps = [] ++ .hit w :: back := hrest.symm
            obtain ⟨hw, f, b, rfl, hf, hb⟩ := ih hstart
            rw [List.append_nil] at hv'
            refine ⟨hw, .hit v :: f, b, rfl, ?_, hb⟩
            rw [source, hf, ← hv', source_kept, source, List.append_nil]
          | cons y v' =>
            obtain ⟨rfl, -⟩ := List.cons.inj hrest
            have hmem : Piece.hit w ∈ v.map Piece.kept := hv' ▸ List.mem_append_right front List.mem_cons_self
            simp at hmem

/-- What was left was left by the pattern, or lies in a match that the check rejects. -/
theorem sift_kept {front back : List (Piece α)} {c : α} (h : sift check ps = front ++ .kept c :: back) :
    (∃ f b, ps = f ++ .kept c :: b ∧ source f = source front ∧ source b = source back) ∨
      ∃ f w b u v, ps = f ++ .hit w :: b ∧ check w = false ∧ w = u ++ c :: v ∧
        source front = source f ++ u := by
  induction ps generalizing front with
  | nil => simp [sift] at h
  | cons x ps ih =>
    cases x with
    | kept d =>
      cases front with
      | nil =>
        rw [sift, List.nil_append, List.cons.injEq, Piece.kept.injEq] at h
        obtain ⟨rfl, rfl⟩ := h
        exact .inl ⟨[], ps, rfl, rfl, (source_sift check ps).symm⟩
      | cons y front =>
        rw [sift, List.cons_append, List.cons.injEq] at h
        obtain ⟨rfl, h⟩ := h
        rcases ih h with ⟨f, b, rfl, hf, hb⟩ | ⟨f, w, b, u, v, rfl, hw, hsplit, hf⟩
        · exact .inl ⟨.kept d :: f, b, rfl, by rw [source, source, hf], hb⟩
        · exact .inr ⟨.kept d :: f, w, b, u, v, rfl, hw, hsplit, by rw [source, source, hf]; rfl⟩
    | hit v =>
      rw [sift] at h
      split_ifs at h with hv
      · cases front with
        | nil =>
          rw [List.singleton_append, List.nil_append, List.cons.injEq] at h
          cases h.1
        | cons y front =>
          rw [List.singleton_append, List.cons_append, List.cons.injEq] at h
          obtain ⟨rfl, h⟩ := h
          rcases ih h with ⟨f, b, rfl, hf, hb⟩ | ⟨f, w, b, u, v', rfl, hw, hsplit, hf⟩
          · exact .inl ⟨.hit v :: f, b, rfl, by rw [source, source, hf], hb⟩
          · exact .inr ⟨.hit v :: f, w, b, u, v', rfl, hw, hsplit, by
              rw [source, source, hf, List.append_assoc]⟩
      · rcases List.append_eq_append_iff.mp h with ⟨front', rfl, hrest⟩ | ⟨v', hv', hrest⟩
        · rcases ih hrest with ⟨f, b, rfl, hf, hb⟩ | ⟨f, w, b, u, v', rfl, hw, hsplit, hf⟩
          · exact .inl ⟨.hit v :: f, b, rfl, by rw [source, source_append, source_kept, hf], hb⟩
          · exact .inr ⟨.hit v :: f, w, b, u, v', rfl, hw, hsplit, by
              rw [source, source_append, source_kept, hf, List.append_assoc]⟩
        · cases v' with
          | nil =>
            have hstart : sift check ps = [] ++ .kept c :: back := hrest.symm
            rw [List.append_nil] at hv'
            have hfront : source front = v := by rw [← hv', source_kept]
            rcases ih hstart with ⟨f, b, rfl, hf, hb⟩ | ⟨f, w, b, u, v', rfl, hw, hsplit, hf⟩
            · exact .inl ⟨.hit v :: f, b, rfl, by rw [source, hf, hfront, source, List.append_nil], hb⟩
            · refine .inr ⟨.hit v :: f, w, b, u, v', rfl, hw, hsplit, ?_⟩
              rw [source, hfront, List.append_assoc, ← hf, source, List.append_nil]
          | cons y v' =>
            obtain ⟨rfl, -⟩ := List.cons.inj hrest
            obtain ⟨w1, w2, rfl, hw1, hw2⟩ := List.map_eq_append_iff.mp hv'
            obtain ⟨d, w3, rfl, hd, -⟩ := List.map_eq_cons_iff.mp hw2
            obtain rfl : d = c := Piece.kept.inj hd
            refine .inr ⟨[], w1 ++ d :: w3, ps, w1, w3, rfl, by simpa using hv, rfl, ?_⟩
            rw [← hw1, source_kept]
            rfl

theorem sift_append (ps' : List (Piece α)) : sift check (ps ++ ps') = sift check ps ++ sift check ps' := by
  induction ps with
  | nil => rfl
  | cons x ps ih =>
    cases x with
    | kept c => rw [List.cons_append, sift, sift, ih, List.cons_append]
    | hit w => rw [List.cons_append, sift, sift, ih, List.append_assoc]

theorem Hits.sift (h : Hits p ps) : Hits p (sift check ps) := by
  intro front w back hps
  obtain ⟨-, f, b, hfb, hf, hb⟩ := sift_hit hps
  rw [← hf, ← hb]
  exact h f w b hfb

end Spec

end Regex

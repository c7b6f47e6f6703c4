import Mathlib.Data.Finset.Card
import ResilienceKit.Lib.Remote

/-!
# RemoteOnce — replies are executions, each at most once

A command runs at most once and its reply arrives at most once, whatever the network does (`Wired`).  So at
most as many calls get a reply of a kind as the server gave replies of it (`card_le_served`).
-/

namespace Remote

open Program
open Mealy (Timed)

variable {σ τ N L M C ω E Q α : Type} {A : Q → Type} [DecidableEq N] {net : Net σ τ N L M C ω E Q A α}

def Flight.command : Flight τ C ω → C
  | .sent c => c
  | .replied _ c _ => c

/-- What holds of the network: a tag is used once, a command runs at most once, its reply arrives at most
once, and a call gets the reply to the command it waits for. -/
structure Wired (net : Net σ τ N L M C ω E Q A α) (l : List (Rec σ τ N L M C ω E Q A α))
    (s : Sys σ τ N L M C ω Q A α) : Prop where
  unused : ∀ tag, s.fresh ≤ tag → s.flights tag = none
  below : ∀ x ∈ executions l, x.tag < s.fresh
  sent : ∀ tag c, s.flights tag = some (.sent c) → ∀ x ∈ executions l, x.tag ≠ tag
  replied : ∀ tag at_ c w, s.flights tag = some (.replied at_ c w) →
    ⟨tag, at_, c, w⟩ ∈ executions l ∧ ∀ d ∈ deliveries l, d.2.tag ≠ tag
  executed_nodup : ((executions l).map Reply.tag).Nodup
  delivered_mem : ∀ d ∈ deliveries l, d.2 ∈ executions l
  delivered_nodup : ((deliveries l).map fun d => d.2.tag).Nodup
  awaited : ∀ id node request q next tag, s.calls id = some ⟨node, request, .ask q next, some tag⟩ →
    tag < s.fresh ∧ ∃ x, net.wire q = some x ∧ ∀ f, s.flights tag = some f → f.command = x.command

section Wired

variable {l : List (Rec σ τ N L M C ω E Q A α)} {s : Sys σ τ N L M C ω Q A α}

/-- A step that neither runs a command nor brings a reply, and leaves the network alone. -/
theorem Wired.still {e : Timed τ (Ev N M E Q A)} (h : Wired net l s)
    (hx : execution ((machine net).record s e) = none) (hd : delivery ((machine net).record s e) = none)
    (hf : ((machine net).next s e).flights = s.flights) (hfresh : ((machine net).next s e).fresh = s.fresh)
    (hcalls : ∀ id node request q next tag,
      ((machine net).next s e).calls id = some ⟨node, request, .ask q next, some tag⟩ →
        s.calls id = some ⟨node, request, .ask q next, some tag⟩) :
    Wired net (l ++ [(machine net).record s e]) ((machine net).next s e) := by
  have hexec : executions (l ++ [(machine net).record s e]) = executions l := by
    rw [executions_concat, hx, Option.toList_none, List.append_nil]
  have hdel : deliveries (l ++ [(machine net).record s e]) = deliveries l := by
    rw [deliveries_concat, hd, Option.toList_none, List.append_nil]
  constructor
  · rw [hf, hfresh]
    exact h.unused
  · rw [hexec, hfresh]
    exact h.below
  · rw [hexec, hf]
    exact h.sent
  · rw [hexec, hdel, hf]
    exact h.replied
  · rw [hexec]
    exact h.executed_nodup
  · rw [hexec, hdel]
    exact h.delivered_mem
  · rw [hdel]
    exact h.delivered_nodup
  · rw [hf, hfresh]
    exact fun id node request q next tag hc => h.awaited id node request q next tag
      (hcalls id node request q next tag hc)

theorem Wired.sends {e : Timed τ (Ev N M E Q A)} (h : Wired net l s) {id : ℕ} {node : N} {request : M} {q : Q}
    {next : A q → Program Q A α} {x : Wire C ω E (A q)} (hx : net.wire q = some x)
    (hexec : execution ((machine net).record s e) = none)
    (hdel : delivery ((machine net).record s e) = none)
    (hpost : (machine net).next s e = { s with
      calls := Function.update s.calls id (some ⟨node, request, .ask q next, some s.fresh⟩)
      flights := Function.update s.flights s.fresh (some (.sent x.command))
      fresh := s.fresh + 1 }) :
    Wired net (l ++ [(machine net).record s e]) ((machine net).next s e) := by
  rw [hpost]
  have hexecs : executions (l ++ [(machine net).record s e]) = executions l := by
    rw [executions_concat, hexec, Option.toList_none, List.append_nil]
  have hdels : deliveries (l ++ [(machine net).record s e]) = deliveries l := by
    rw [deliveries_concat, hdel, Option.toList_none, List.append_nil]
  constructor
  · intro tag htag
    have hne : tag ≠ s.fresh := by
      have : s.fresh + 1 ≤ tag := htag
      omega
    show Function.update s.flights s.fresh _ tag = none
    rw [Function.update_of_ne hne]
    exact h.unused tag (Nat.le_of_succ_le htag)
  · rw [hexecs]
    intro y hy
    exact Nat.lt_succ_of_lt (h.below y hy)
  · rw [hexecs]
    intro tag c hc y hy
    by_cases htag : tag = s.fresh
    · rw [htag]
      exact (h.below y hy).ne
    · have hc' : Function.update s.flights s.fresh _ tag = some (.sent c) := hc
      rw [Function.update_of_ne htag] at hc'
      exact h.sent tag c hc' y hy
  · rw [hexecs, hdels]
    intro tag at_ c w hc
    have hc' : Function.update s.flights s.fresh (some (.sent x.command)) tag = some (.replied at_ c w) := hc
    by_cases htag : tag = s.fresh
    · rw [htag, Function.update_self] at hc'
      cases hc'
    · rw [Function.update_of_ne htag] at hc'
      exact h.replied tag at_ c w hc'
  · rw [hexecs]
    exact h.executed_nodup
  · rw [hexecs, hdels]
    exact h.delivered_mem
  · rw [hdels]
    exact h.delivered_nodup
  · intro id' node' request' q' next' tag hc
    have hc' : Function.update s.calls id _ id' = some _ := hc
    by_cases hid : id' = id
    · rw [hid, Function.update_self] at hc'
      cases hc'
      refine ⟨Nat.lt_succ_self _, x, hx, fun f hf => ?_⟩
      have hf' : Function.update s.flights s.fresh _ s.fresh = some f := hf
      rw [Function.update_self] at hf'
      rw [← Option.some.inj hf', Flight.command]
    · rw [Function.update_of_ne hid] at hc'
      obtain ⟨hlt, y, hy, hcommand⟩ := h.awaited id' node' request' q' next' tag hc'
      refine ⟨Nat.lt_succ_of_lt hlt, y, hy, fun f hf => hcommand f ?_⟩
      have hf' : Function.update s.flights s.fresh _ tag = some f := hf
      rwa [Function.update_of_ne hlt.ne] at hf'

theorem Wired.executes {e : Timed τ (Ev N M E Q A)} (h : Wired net l s) {tag : ℕ} {c : C} {server : σ} {w : ω}
    (hat : s.flights tag = some (.sent c))
    (hexec : execution ((machine net).record s e) = some ⟨tag, e.time, c, w⟩)
    (hdel : delivery ((machine net).record s e) = none)
    (hpost : (machine net).next s e = { s with
      server := server
      flights := Function.update s.flights tag (some (.replied e.time c w)) }) :
    Wired net (l ++ [(machine net).record s e]) ((machine net).next s e) := by
  rw [hpost]
  have hexecs : executions (l ++ [(machine net).record s e]) = executions l ++ [⟨tag, e.time, c, w⟩] := by
    rw [executions_concat, hexec, Option.toList_some]
  have hdels : deliveries (l ++ [(machine net).record s e]) = deliveries l := by
    rw [deliveries_concat, hdel, Option.toList_none, List.append_nil]
  have hlt : tag < s.fresh := by
    by_contra hge
    rw [h.unused tag (not_lt.mp hge)] at hat
    cases hat
  constructor
  · intro tag' htag
    have hne : tag' ≠ tag := by
      have : s.fresh ≤ tag' := htag
      omega
    show Function.update s.flights tag _ tag' = none
    rw [Function.update_of_ne hne]
    exact h.unused tag' htag
  · rw [hexecs]
    intro y hy
    rcases List.mem_append.mp hy with hy | hy
    · exact h.below y hy
    · rw [List.mem_singleton.mp hy]
      exact hlt
  · rw [hexecs]
    intro tag' c' hc y hy
    have hc' : Function.update s.flights tag _ tag' = some (.sent c') := hc
    by_cases htag : tag' = tag
    · rw [htag, Function.update_self] at hc'
      cases hc'
    · rw [Function.update_of_ne htag] at hc'
      rcases List.mem_append.mp hy with hy | hy
      · exact h.sent tag' c' hc' y hy
      · rw [List.mem_singleton.mp hy]
        exact Ne.symm htag
  · rw [hexecs, hdels]
    intro tag' at_ c' w' hc
    have hc' : Function.update s.flights tag _ tag' = some (.replied at_ c' w') := hc
    by_cases htag : tag' = tag
    · rw [htag, Function.update_self] at hc'
      cases hc'
      rw [htag]
      exact ⟨List.mem_append_right _ (List.mem_singleton.mpr rfl),
        fun d hd => h.sent tag c hat _ (h.delivered_mem d hd)⟩
    · rw [Function.update_of_ne htag] at hc'
      obtain ⟨hmem, hnot⟩ := h.replied tag' at_ c' w' hc'
      exact ⟨List.mem_append_left _ hmem, hnot⟩
  · rw [hexecs, List.map_append]
    refine List.nodup_append.mpr ⟨h.executed_nodup, by simp, fun a ha b hb => ?_⟩
    obtain ⟨y, hy, rfl⟩ := List.mem_map.mp ha
    obtain rfl : b = tag := by simpa using hb
    exact h.sent b c hat y hy
  · rw [hexecs, hdels]
    exact fun d hd => List.mem_append_left _ (h.delivered_mem d hd)
  · rw [hdels]
    exact h.delivered_nodup
  · intro id node request q next tag' hc
    obtain ⟨hlt', x, hx, hcommand⟩ := h.awaited id node request q next tag' hc
    refine ⟨hlt', x, hx, fun f hf => ?_⟩
    have hf' : Function.update s.flights tag _ tag' = some f := hf
    by_cases htag : tag' = tag
    · rw [htag, Function.update_self] at hf'
      rw [← Option.some.inj hf', ← hcommand (.sent c) (by rw [htag, hat])]
      rfl
    · rw [Function.update_of_ne htag] at hf'
      exact hcommand f hf'

theorem Wired.delivers {e : Timed τ (Ev N M E Q A)} (h : Wired net l s) {id tag : ℕ} {node : N} {request : M}
    {prog : Program Q A α} {at_ : τ} {c : C} {w : ω} (hf : s.flights tag = some (.replied at_ c w))
    (hexec : execution ((machine net).record s e) = none)
    (hdel : delivery ((machine net).record s e) = some (id, ⟨tag, at_, c, w⟩))
    (hpost : (machine net).next s e = { s with
      calls := Function.update s.calls id (some ⟨node, request, prog, none⟩)
      flights := Function.update s.flights tag none }) :
    Wired net (l ++ [(machine net).record s e]) ((machine net).next s e) := by
  rw [hpost]
  have hexecs : executions (l ++ [(machine net).record s e]) = executions l := by
    rw [executions_concat, hexec, Option.toList_none, List.append_nil]
  have hdels : deliveries (l ++ [(machine net).record s e]) = deliveries l ++ [(id, ⟨tag, at_, c, w⟩)] := by
    rw [deliveries_concat, hdel, Option.toList_some]
  obtain ⟨hmem, hnot⟩ := h.replied tag at_ c w hf
  have hback : ∀ {tag' f}, Function.update s.flights tag none tag' = some f →
      tag' ≠ tag ∧ s.flights tag' = some f := by
    intro tag' f hf'
    by_cases htag : tag' = tag
    · rw [htag, Function.update_self] at hf'
      cases hf'
    · rw [Function.update_of_ne htag] at hf'
      exact ⟨htag, hf'⟩
  constructor
  · intro tag' htag
    show Function.update s.flights tag none tag' = none
    by_cases heq : tag' = tag
    · rw [heq, Function.update_self]
    · rw [Function.update_of_ne heq]
      exact h.unused tag' htag
  · rw [hexecs]
    exact h.below
  · rw [hexecs]
    exact fun tag' c' hc => h.sent tag' c' (hback hc).2
  · rw [hexecs, hdels]
    intro tag' at' c' w' hc
    obtain ⟨hne, hc'⟩ := hback hc
    obtain ⟨hmem', hnot'⟩ := h.replied tag' at' c' w' hc'
    refine ⟨hmem', fun d hd => ?_⟩
    rcases List.mem_append.mp hd with hd | hd
    · exact hnot' d hd
    · rw [List.mem_singleton.mp hd]
      exact hne.symm
  · rw [hexecs]
    exact h.executed_nodup
  · rw [hexecs, hdels]
    intro d hd
    rcases List.mem_append.mp hd with hd | hd
    · exact h.delivered_mem d hd
    · rw [List.mem_singleton.mp hd]
      exact hmem
  · rw [hdels, List.map_append]
    refine List.nodup_append.mpr ⟨h.delivered_nodup, by simp, fun a ha b hb => ?_⟩
    obtain ⟨d, hd, rfl⟩ := List.mem_map.mp ha
    obtain rfl : b = tag := by simpa using hb
    exact hnot d hd
  · intro id' node' request' q' next' tag' hc
    obtain ⟨hlt, x, hx, hcommand⟩ := h.awaited id' node' request' q' next' tag'
      (waiting_of_update id' node' request' q' next' tag' hc)
    exact ⟨hlt, x, hx, fun f hf' => hcommand f (hback hf').2⟩

/-- **Step lemma.** -/
theorem Wired.step (h : Wired net l s) (e : Timed τ (Ev N M E Q A)) :
    Wired net (l ++ [(machine net).record s e]) ((machine net).next s e) := by
  cases moved net s e with
  | ignored ho hp =>
    have hpost : (machine net).next s e = s := hp
    refine h.still (by rw [execution, ho]) (by rw [delivery, ho]) (by rw [hpost]) (by rw [hpost]) ?_
    rw [hpost]
    exact fun _ _ _ _ _ _ hc => hc
  | spawned id node request hev hfree ho hp =>
    have hpost : (machine net).next s e = _ := hp
    refine h.still (by rw [execution, ho]) (by rw [delivery, ho]) (by rw [hpost]; rfl) (by rw [hpost]; rfl) ?_
    rw [hpost]
    exact waiting_of_update
  | sent id node request q next x hat hx ho hp =>
    exact h.sends hx (by rw [execution, ho]) (by rw [delivery, ho]) hp
  | executed tag c server w hat hserver ho hp =>
    exact h.executes hat (by rw [execution, ho]; rfl) (by rw [delivery, ho]) hp
  | delivered id node request q next x tag at_ c w hat hx hf ho hp =>
    exact h.delivers hf (by rw [execution, ho]) (by rw [delivery, ho]) hp
  | failed id node request q next x tag exc hat hx ho hp =>
    have hpost : (machine net).next s e = _ := hp
    refine h.still (by rw [execution, ho]) (by rw [delivery, ho]) (by rw [hpost]; rfl) (by rw [hpost]; rfl) ?_
    rw [hpost]
    exact waiting_of_update
  | answered id node request q next tag a₀ a l' hat hx hserve ho hp =>
    have hpost : (machine net).next s e = _ := hp
    refine h.still (by rw [execution, ho]) (by rw [delivery, ho]) (by rw [hpost]; rfl) (by rw [hpost]; rfl) ?_
    rw [hpost]
    exact waiting_of_update

end Wired

theorem wired (es : List (Timed τ (Ev N M E Q A))) : Wired net (history net es) (after net es) := by
  refine Mealy.log_induct (machine net) (P := Wired net) ?_ (fun l s e hI => hI.step e) es
  constructor <;> simp [machine, executions, deliveries]

/-! ### Counting -/

/-- Distinct owners have distinct entries. -/
theorem card_le_countP {β : Type} {S : Finset ℕ} {l : List β} {p : β → Bool} (owner : β → Option ℕ)
    (h : ∀ id ∈ S, ∃ b ∈ l, p b = true ∧ owner b = some id) : S.card ≤ l.countP p := by
  have hsub : S ⊆ ((l.filter p).filterMap owner).toFinset := by
    intro id hid
    obtain ⟨b, hb, hp, ho⟩ := h id hid
    exact List.mem_toFinset.mpr (List.mem_filterMap.mpr ⟨b, List.mem_filter.mpr ⟨hb, hp⟩, ho⟩)
  calc S.card ≤ ((l.filter p).filterMap owner).toFinset.card := Finset.card_le_card hsub
    _ ≤ ((l.filter p).filterMap owner).length := List.toFinset_card_le _
    _ ≤ (l.filter p).length := List.length_filterMap_le _ _
    _ = l.countP p := List.countP_eq_length_filter.symm

/-- **Counting**: at most as many calls get a reply of a kind as there are answers of that kind in the run of the
server. -/
theorem card_le_served {S : Finset ℕ} {p : τ × C × ω → Bool} (es : List (Timed τ (Ev N M E Q A)))
    (h : ∀ id ∈ S, ∃ y, (id, y) ∈ deliveries (history net es) ∧ p (y.at_, y.command, y.answer) = true) :
    S.card ≤ (net.server.log net.server.init (served (history net es))).countP
      fun r => p (r.ev.time, r.ev.ev, r.out) := by
  have hw : Wired net (history net es) (after net es) := wired es
  let view : Reply τ C ω → τ × C × ω := fun y => (y.at_, y.command, y.answer)
  have hnodup : ((deliveries (history net es)).map Prod.snd).Nodup := by
    refine List.Nodup.of_map Reply.tag ?_
    rw [List.map_map]
    exact hw.delivered_nodup
  have hsub : ((deliveries (history net es)).map Prod.snd).Subperm (executions (history net es)) := by
    refine List.subperm_of_subset hnodup fun y hy => ?_
    obtain ⟨d, hd, rfl⟩ := List.mem_map.mp hy
    exact hw.delivered_mem d hd
  have hserver := (server_run net es).2
  calc S.card ≤ (deliveries (history net es)).countP (fun d => p (view d.2)) := by
        refine card_le_countP (fun d => some d.1) fun id hid => ?_
        obtain ⟨y, hy, hp⟩ := h id hid
        exact ⟨(id, y), hy, hp, rfl⟩
    _ = ((deliveries (history net es)).map Prod.snd).countP (p ∘ view) := by
      rw [List.countP_map]
      rfl
    _ ≤ (executions (history net es)).countP (p ∘ view) := hsub.countP_le _
    _ = ((executions (history net es)).map view).countP p := (List.countP_map).symm
    _ = _ := by
      rw [← hserver, List.countP_map]
      rfl

end Remote

import ResilienceKit.Lib.Ensures
import ResilienceKit.Lib.RemoteOnce

/-!
# RemoteCalls — the calls one by one, and the machines of the nodes

`origin`: where what a call was told came from.  `own_induct` and `ensures` are about what a call keeps along
its own `exchanges`.  `Local` is a machine that every node has for itself: its run (`Local.node_run`), and at
most as many calls of the node get an answer of a kind as it gave (`Local.card_le_consulted`).
-/

namespace Remote

open Program
open Mealy (Timed)

variable {σ τ N L M C ω E Q α : Type} {A : Q → Type} [DecidableEq N] {net : Net σ τ N L M C ω E Q A α}

/-! ### One call -/

/-- A call stays on its node and keeps its request. -/
theorem kept (net : Net σ τ N L M C ω E Q A α) (s : Sys σ τ N L M C ω Q A α) (e : Timed τ (Ev N M E Q A))
    {id : ℕ} {c : Call N M Q A α} (hc : s.calls id = some c) :
    ∃ c', ((machine net).next s e).calls id = some c' ∧ c'.node = c.node ∧ c'.request = c.request := by
  have hupdate : ∀ {id' : ℕ} {c₀ : Call N M Q A α} (c₁ : Call N M Q A α), s.calls id' = some c₀ → c₁.node = c₀.node →
      c₁.request = c₀.request → ((machine net).next s e).calls = Function.update s.calls id' (some c₁) →
      ∃ c', ((machine net).next s e).calls id = some c' ∧ c'.node = c.node ∧ c'.request = c.request := by
    intro id' c₀ c₁ hat hnode hrequest hcalls
    by_cases hid : id = id'
    · subst hid
      obtain rfl : c₀ = c := Option.some.inj (hat.symm.trans hc)
      exact ⟨c₁, by rw [hcalls, Function.update_self], hnode, hrequest⟩
    · exact ⟨c, by rw [hcalls, Function.update_of_ne hid, hc], rfl, rfl⟩
  have hstill : ((machine net).next s e).calls = s.calls →
      ∃ c', ((machine net).next s e).calls id = some c' ∧ c'.node = c.node ∧ c'.request = c.request :=
    fun hcalls => ⟨c, by rw [hcalls, hc], rfl, rfl⟩
  cases moved net s e with
  | ignored ho h => exact hstill (congrArg Sys.calls h)
  | spawned id' node request hev hfree ho h =>
    have hne : id ≠ id' := by
      rintro rfl
      exact Option.some_ne_none c (hc.symm.trans hfree)
    have hcalls : ((machine net).next s e).calls = _ := congrArg Sys.calls h
    refine ⟨c, ?_, rfl, rfl⟩
    rw [hcalls]
    exact (Function.update_of_ne hne _ _).trans hc
  | sent id' node request q next x hat hx ho h =>
    have hcalls : ((machine net).next s e).calls = _ := congrArg Sys.calls h
    exact hupdate ⟨node, request, .ask q next, some s.fresh⟩ hat rfl rfl hcalls
  | executed tag c' server w hat hserver ho h =>
    have hcalls : ((machine net).next s e).calls = _ := congrArg Sys.calls h
    exact hstill hcalls
  | delivered id' node request q next x tag at_ c' w hat hx hf ho h =>
    have hcalls : ((machine net).next s e).calls = _ := congrArg Sys.calls h
    exact hupdate ⟨node, request, next (x.receive w), none⟩ hat rfl rfl hcalls
  | failed id' node request q next x tag exc hat hx ho h =>
    have hcalls : ((machine net).next s e).calls = _ := congrArg Sys.calls h
    exact hupdate ⟨node, request, next (x.lost exc), none⟩ hat rfl rfl hcalls
  | answered id' node request q next tag a₀ a l' hat hx hserve ho h =>
    have hcalls : ((machine net).next s e).calls = _ := congrArg Sys.calls h
    exact hupdate ⟨node, request, next a, none⟩ hat rfl rfl hcalls

/-- The node that answers a call is its own. -/
theorem node_of_answered (es : List (Timed τ (Ev N M E Q A))) : ∀ r ∈ history net es, ∀ id node y,
    r.out = .answered id node y → ∃ c, (after net es).calls id = some c ∧ c.node = node := by
  refine Mealy.log_induct (machine net) (s := (machine net).init)
    (P := fun l s => ∀ r ∈ l, ∀ id node y, r.out = .answered id node y →
      ∃ c, s.calls id = some c ∧ c.node = node) (by simp) (fun l s e hI r hr id node y ho => ?_) es
  rcases List.mem_append.mp hr with hr | hr
  · obtain ⟨c, hc, hnode⟩ := hI r hr id node y ho
    obtain ⟨c', hc', hnode', -⟩ := kept net s e hc
    exact ⟨c', hc', hnode'.trans hnode⟩
  · obtain rfl := List.mem_singleton.mp hr
    cases moved net s e with
    | ignored ho' h => cases ho'.symm.trans ho
    | spawned id' node' request hev hfree ho' h => cases ho'.symm.trans ho
    | sent id' node' request q next x hat hx ho' h => cases ho'.symm.trans ho
    | executed tag c server w hat hserver ho' h => cases ho'.symm.trans ho
    | delivered id' node' request q next x tag at_ c w hat hx hf ho' h => cases ho'.symm.trans ho
    | failed id' node' request q next x tag exc hat hx ho' h => cases ho'.symm.trans ho
    | answered id' node' request q next tag a₀ a l' hat hx hserve ho' h =>
      obtain ⟨rfl, rfl, -⟩ := Out.answered.inj (ho'.symm.trans ho)
      obtain ⟨c', hc', hnode', -⟩ := kept net s e hat
      exact ⟨c', hc', hnode'⟩

/-- Where what a call was told came from. -/
inductive Origin (net : Net σ τ N L M C ω E Q A α) (l : List (Rec σ τ N L M C ω E Q A α)) (id : ℕ)
    (y : Exchange A) : Prop
  | delivered (x : Wire C ω E (A y.1)) (z : Reply τ C ω) (hx : net.wire y.1 = some x)
      (hc : z.command = x.command) (ha : y.2 = x.receive z.answer) (hz : (id, z) ∈ deliveries l)
  | failed (x : Wire C ω E (A y.1)) (exc : E) (hx : net.wire y.1 = some x) (ha : y.2 = x.lost exc)
  | answered (r : Rec σ τ N L M C ω E Q A α) (node : N) (hx : net.wire y.1 = none) (hr : r ∈ l)
      (ho : r.out = .answered id node y)

omit [DecidableEq N] in
theorem Origin.concat {l : List (Rec σ τ N L M C ω E Q A α)} {r : Rec σ τ N L M C ω E Q A α} {id : ℕ}
    {y : Exchange A} (h : Origin net l id y) : Origin net (l ++ [r]) id y := by
  cases h with
  | delivered x z hx hc ha hz =>
    refine .delivered x z hx hc ha ?_
    rw [deliveries_concat]
    exact List.mem_append_left _ hz
  | failed x exc hx ha => exact .failed x exc hx ha
  | answered r' node hx hr ho => exact .answered r' node hx (List.mem_append_left _ hr) ho

/-- **Every answer has an origin.** -/
theorem origin (es : List (Timed τ (Ev N M E Q A))) (id : ℕ) :
    ∀ y ∈ exchanges (history net es) id, Origin net (history net es) id y := by
  refine (Mealy.log_induct (machine net) (s := (machine net).init)
    (P := fun l s => Wired net l s ∧ ∀ y ∈ exchanges l id, Origin net l id y)
    ⟨wired [], by simp [exchanges]⟩ (fun l s e hI => ⟨hI.1.step e, fun y hy => ?_⟩) es).2
  obtain ⟨hw, hI⟩ := hI
  rw [exchanges_concat] at hy
  rcases List.mem_append.mp hy with hy | hy
  · exact (hI y hy).concat
  · have hy' : exchange ((machine net).record s e) id = some y := Option.mem_toList.mp hy
    unfold exchange at hy'
    cases moved net s e with
    | ignored ho h => rw [ho] at hy'; cases hy'
    | spawned id' node request hev hfree ho h => rw [ho] at hy'; cases hy'
    | sent id' node request q next x hat hx ho h => rw [ho] at hy'; cases hy'
    | executed tag c server w hat hserver ho h => rw [ho] at hy'; cases hy'
    | delivered id' node request q next x tag at_ c w hat hx hf ho h =>
      simp only [ho] at hy'
      split_ifs at hy' with hid
      subst hid
      obtain rfl := Option.some.inj hy'
      obtain ⟨-, x', hx', hcommand⟩ := hw.awaited id' node request q next tag hat
      have hc : c = x'.command := hcommand _ hf
      obtain rfl : x = x' := Option.some.inj (hx.symm.trans hx')
      refine .delivered x ⟨tag, at_, c, w⟩ hx hc rfl ?_
      rw [deliveries_concat, delivery, ho]
      exact List.mem_append_right _ (List.mem_singleton.mpr rfl)
    | failed id' node request q next x tag exc hat hx ho h =>
      simp only [ho] at hy'
      split_ifs at hy' with hid
      obtain rfl := Option.some.inj hy'
      exact .failed x exc hx rfl
    | answered id' node request q next tag a₀ a l' hat hx hserve ho h =>
      simp only [ho] at hy'
      split_ifs at hy' with hid
      subst hid
      obtain rfl := Option.some.inj hy'
      exact .answered _ node hx (by simp) ho

/-- **Invariant rule** for the calls one by one: what holds of the program of a request before it has asked
anything, and is kept by every answer, holds of every call in every run. -/
theorem own_induct {I : M → List (Exchange A) → Program Q A α → Prop} (h0 : ∀ m, I m [] (net.prog m))
    (hstep : ∀ m h q next a, I m h (.ask q next) → I m (h ++ [⟨q, a⟩]) (next a))
    (es : List (Timed τ (Ev N M E Q A))) (id : ℕ) (c : Call N M Q A α)
    (hc : (after net es).calls id = some c) : I c.request (exchanges (history net es) id) c.prog := by
  refine (Mealy.log_induct (machine net) (s := (machine net).init)
    (P := fun l s => (s.calls id = none → exchanges l id = []) ∧
      ∀ c, s.calls id = some c → I c.request (exchanges l id) c.prog)
    ⟨fun _ => rfl, fun c hc => (by cases hc)⟩ (fun l s e hI => ?_) es).2 c hc
  obtain ⟨hnone, hsome⟩ := hI
  rw [exchanges_concat]
  -- a step that tells the call nothing and leaves it where it is
  have hstill : exchange ((machine net).record s e) id = none →
      ((machine net).next s e).calls id = s.calls id →
      (((machine net).next s e).calls id = none →
        exchanges l id ++ (exchange ((machine net).record s e) id).toList = []) ∧
      ∀ c, ((machine net).next s e).calls id = some c →
        I c.request (exchanges l id ++ (exchange ((machine net).record s e) id).toList) c.prog := by
    intro hx hcalls
    rw [hx, hcalls, Option.toList_none, List.append_nil]
    exact ⟨hnone, hsome⟩
  -- a step that answers a call
  have hanswer : ∀ {id' node request q next tag} {a : A q},
      s.calls id' = some ⟨node, request, .ask q next, tag⟩ →
      (exchange ((machine net).record s e) id = if id' = id then some ⟨q, a⟩ else none) →
      ((machine net).next s e).calls = Function.update s.calls id' (some ⟨node, request, next a, none⟩) →
      (((machine net).next s e).calls id = none →
        exchanges l id ++ (exchange ((machine net).record s e) id).toList = []) ∧
      ∀ c, ((machine net).next s e).calls id = some c →
        I c.request (exchanges l id ++ (exchange ((machine net).record s e) id).toList) c.prog := by
    intro id' node request q next tag a hat hx hcalls
    by_cases hid : id' = id
    · subst hid
      rw [hx, if_pos rfl, hcalls, Function.update_self]
      refine ⟨fun hn => (by cases hn), fun c hc => ?_⟩
      obtain rfl := Option.some.inj hc
      exact hstep request _ q next a (hsome _ hat)
    · rw [if_neg hid] at hx
      exact hstill hx (by rw [hcalls, Function.update_of_ne (Ne.symm hid)])
  cases moved net s e with
  | ignored ho h =>
    have hpost : (machine net).next s e = s := h
    exact hstill (by rw [exchange, ho]) (by rw [hpost])
  | spawned id' node request hev hfree ho h =>
    have hpost : (machine net).next s e = _ := h
    by_cases hid : id' = id
    · subst hid
      rw [exchange, ho, Option.toList_none, List.append_nil, hnone hfree, hpost]
      refine ⟨fun _ => rfl, fun c hc => ?_⟩
      obtain rfl : (⟨node, request, net.prog request, none⟩ : Call N M Q A α) = c := by simpa using hc
      exact h0 request
    · refine hstill (by rw [exchange, ho]) ?_
      rw [hpost]
      exact Function.update_of_ne (Ne.symm hid) _ _
  | sent id' node request q next x hat hx ho h =>
    have hpost : (machine net).next s e = _ := h
    by_cases hid : id' = id
    · subst hid
      rw [exchange, ho, Option.toList_none, List.append_nil, hpost]
      refine ⟨fun hn => by simp at hn, fun c hc => ?_⟩
      obtain rfl : (⟨node, request, .ask q next, some s.fresh⟩ : Call N M Q A α) = c := by simpa using hc
      have hbefore := hsome _ hat
      exact hbefore
    · refine hstill (by rw [exchange, ho]) ?_
      rw [hpost]
      exact Function.update_of_ne (Ne.symm hid) _ _
  | executed tag c server w hat hserver ho h =>
    have hpost : (machine net).next s e = _ := h
    exact hstill (by rw [exchange, ho]) (by rw [hpost]; rfl)
  | delivered id' node request q next x tag at_ c w hat hx hf ho h =>
    have hpost : (machine net).next s e = _ := h
    exact hanswer hat (by rw [exchange, ho]) (by rw [hpost]; rfl)
  | failed id' node request q next x tag exc hat hx ho h =>
    have hpost : (machine net).next s e = _ := h
    exact hanswer hat (by rw [exchange, ho]) (by rw [hpost]; rfl)
  | answered id' node request q next tag a₀ a l' hat hx hserve ho h =>
    have hpost : (machine net).next s e = _ := h
    exact hanswer hat (by rw [exchange, ho]) (by rw [hpost]; rfl)

/-- Where a call ran, what for, and how it ended. -/
def ended (net : Net σ τ N L M C ω E Q A α) (es : List (Timed τ (Ev N M E Q A))) (id : ℕ) :
    Option (N × M × α) :=
  match (after net es).calls id with
  | some ⟨node, request, .done a, _⟩ => some (node, request, a)
  | _ => none

theorem calls_of_ended {es : List (Timed τ (Ev N M E Q A))} {id : ℕ} {node : N} {request : M} {a : α}
    (h : ended net es id = some (node, request, a)) :
    ∃ tag, (after net es).calls id = some ⟨node, request, .done a, tag⟩ := by
  unfold ended at h
  split at h
  · rename_i node' request' a' tag hc
    cases h
    exact ⟨tag, hc⟩
  · cases h

/-- Every call that has ended ended as the program of its request ensures. -/
theorem ensures {Φ : M → List (Exchange A) → α → Prop} (h : ∀ m, Program.Ensures (Φ m) [] (net.prog m))
    {es : List (Timed τ (Ev N M E Q A))} {id : ℕ} {node : N} {request : M} {a : α}
    (hend : ended net es id = some (node, request, a)) : Φ request (exchanges (history net es) id) a := by
  obtain ⟨tag, hc⟩ := calls_of_ended hend
  exact own_induct (I := fun m h p => Program.Ensures (Φ m) h p) h (fun _ _ _ _ a hI => hI a) es id _ hc

/-! ### What is asked -/

/-- The events start calls for requests in `G` only. -/
def Requested (G : M → Prop) (es : List (Timed τ (Ev N M E Q A))) : Prop :=
  ∀ e ∈ es, ∀ id node m, e.ev = .spawn id node m → G m

/-- Everything asked in a run is something the program of a request can come to. -/
structure Asked (net : Net σ τ N L M C ω E Q A α) (P : Q → Prop) (l : List (Rec σ τ N L M C ω E Q A α))
    (s : Sys σ τ N L M C ω Q A α) : Prop where
  calls : ∀ id c, s.calls id = some c → c.prog.Asks P
  flights : ∀ tag f, s.flights tag = some f → ∃ q x, P q ∧ net.wire q = some x ∧ f.command = x.command
  executed : ∀ y ∈ executions l, ∃ q x, P q ∧ net.wire q = some x ∧ y.command = x.command
  answered : ∀ r ∈ l, ∀ id node y, r.out = .answered id node y → P y.1

theorem Asked.step {P : Q → Prop} {l : List (Rec σ τ N L M C ω E Q A α)} {s : Sys σ τ N L M C ω Q A α}
    (h : Asked net P l s) {e : Timed τ (Ev N M E Q A)}
    (he : ∀ id node m, e.ev = .spawn id node m → (net.prog m).Asks P) :
    Asked net P (l ++ [(machine net).record s e]) ((machine net).next s e) := by
  -- the calls after a step that changes one of them
  have hupdate : ∀ {id' : ℕ} {c' : Call N M Q A α}, c'.prog.Asks P → ∀ id c,
      Function.update s.calls id' (some c') id = some c → c.prog.Asks P := by
    intro id' c' hc' id c hc
    by_cases hid : id = id'
    · rw [hid, Function.update_self] at hc
      obtain rfl := Option.some.inj hc
      exact hc'
    · rw [Function.update_of_ne hid] at hc
      exact h.calls id c hc
  have hexec : execution ((machine net).record s e) = none →
      ∀ y ∈ executions (l ++ [(machine net).record s e]),
        ∃ q x, P q ∧ net.wire q = some x ∧ y.command = x.command := by
    intro hx y hy
    rw [executions_concat, hx, Option.toList_none, List.append_nil] at hy
    exact h.executed y hy
  have hanswered : (∀ id node y, ((machine net).record s e).out = .answered id node y → P y.1) →
      ∀ r ∈ l ++ [(machine net).record s e], ∀ id node y, r.out = .answered id node y → P y.1 := by
    intro hlast r hr id node y ho
    rcases List.mem_append.mp hr with hr | hr
    · exact h.answered r hr id node y ho
    · rw [List.mem_singleton.mp hr] at ho
      exact hlast id node y ho
  cases moved net s e with
  | ignored ho hp =>
    have hpost : (machine net).next s e = s := hp
    rw [hpost]
    exact ⟨h.calls, h.flights, hexec (by rw [execution, ho]),
      hanswered fun id node y ho' => (by cases ho.symm.trans ho')⟩
  | spawned id node request hev hfree ho hp =>
    have hpost : (machine net).next s e = _ := hp
    rw [hpost]
    exact ⟨hupdate (he id node request hev), h.flights, hexec (by rw [execution, ho]),
      hanswered fun id node y ho' => (by cases ho.symm.trans ho')⟩
  | sent id node request q next x hat hx ho hp =>
    have hpost : (machine net).next s e = _ := hp
    have hq : (Program.ask q next : Program Q A α).Asks P := h.calls id _ hat
    rw [hpost]
    refine ⟨hupdate hq, fun tag f hf => ?_, hexec (by rw [execution, ho]),
      hanswered fun id node y ho' => (by cases ho.symm.trans ho')⟩
    have hf' : Function.update s.flights s.fresh (some (.sent x.command)) tag = some f := hf
    by_cases htag : tag = s.fresh
    · rw [htag, Function.update_self] at hf'
      rw [← Option.some.inj hf']
      exact ⟨q, x, hq.1, hx, rfl⟩
    · rw [Function.update_of_ne htag] at hf'
      exact h.flights tag f hf'
  | executed tag c server w hat hserver ho hp =>
    have hpost : (machine net).next s e = _ := hp
    have hcommand := h.flights tag _ hat
    rw [hpost]
    refine ⟨h.calls, fun tag' f hf => ?_, fun y hy => ?_,
      hanswered fun id node y ho' => (by cases ho.symm.trans ho')⟩
    · have hf' : Function.update s.flights tag (some (.replied e.time c w)) tag' = some f := hf
      by_cases htag : tag' = tag
      · rw [htag, Function.update_self] at hf'
        rw [← Option.some.inj hf']
        exact hcommand
      · rw [Function.update_of_ne htag] at hf'
        exact h.flights tag' f hf'
    · rw [executions_concat, execution, ho] at hy
      rcases List.mem_append.mp hy with hy | hy
      · exact h.executed y hy
      · rw [List.mem_singleton.mp hy]
        exact hcommand
  | delivered id node request q next x tag at_ c w hat hx hf ho hp =>
    have hpost : (machine net).next s e = _ := hp
    have hq : (Program.ask q next : Program Q A α).Asks P := h.calls id _ hat
    rw [hpost]
    refine ⟨hupdate (hq.2 _), fun tag' f hf' => ?_, hexec (by rw [execution, ho]),
      hanswered fun id node y ho' => (by cases ho.symm.trans ho')⟩
    have hf'' : Function.update s.flights tag none tag' = some f := hf'
    by_cases htag : tag' = tag
    · rw [htag, Function.update_self] at hf''
      cases hf''
    · rw [Function.update_of_ne htag] at hf''
      exact h.flights tag' f hf''
  | failed id node request q next x tag exc hat hx ho hp =>
    have hpost : (machine net).next s e = _ := hp
    have hq : (Program.ask q next : Program Q A α).Asks P := h.calls id _ hat
    rw [hpost]
    exact ⟨hupdate (hq.2 _), h.flights, hexec (by rw [execution, ho]),
      hanswered fun id node y ho' => (by cases ho.symm.trans ho')⟩
  | answered id node request q next tag a₀ a l' hat hx hserve ho hp =>
    have hpost : (machine net).next s e = _ := hp
    have hq : (Program.ask q next : Program Q A α).Asks P := h.calls id _ hat
    rw [hpost]
    refine ⟨hupdate (hq.2 _), h.flights, hexec (by rw [execution, ho]), hanswered fun id' node' y ho' => ?_⟩
    obtain ⟨-, -, rfl⟩ := Out.answered.inj (ho.symm.trans ho')
    exact hq.1

theorem asked {G : M → Prop} {P : Q → Prop} (hp : ∀ m, G m → (net.prog m).Asks P)
    {es : List (Timed τ (Ev N M E Q A))} (hes : Requested G es) :
    Asked net P (history net es) (after net es) := by
  refine Mealy.Along.induct (M := machine net) (s := (machine net).init)
    (G := fun _ _ e => ∀ id node m, e.ev = .spawn id node m → G m) (P := Asked net P) ?_
    (fun l s e hI he => hI.step fun id node m hev => hp m (he id node m hev)) ?_
  · constructor <;> simp [machine, executions]
  · rintro p e q rfl
    exact hes e (by simp)

/-! ### A machine on every node -/

section Local

variable {β τ' D ω' : Type}

/-- A machine that the node runs for its calls: the questions that are operations of it, and what the answers
say.  The other questions leave it alone. -/
structure Local (net : Net σ τ N L M C ω E Q A α) (B : Mealy β (Timed τ' D) ω') where
  clock : N → τ → τ'
  view : L → β
  op : Q → Option D
  answer : (q : Q) → A q → Option ω'
  step : ∀ t n l {q d} a₀, op q = some d →
    view (net.serve t n l q a₀).2 = (B.step (view l) ⟨clock n t, d⟩).1 ∧
      answer q (net.serve t n l q a₀).1 = some (B.step (view l) ⟨clock n t, d⟩).2
  still : ∀ t n l {q} a₀, op q = none → view (net.serve t n l q a₀).2 = view l

variable {B : Mealy β (Timed τ' D) ω'} (loc : Local net B) (n : N)

/-- The operation on the machine of `n` that a step is, with its time and its answer. -/
def Local.consultation (r : Rec σ τ N L M C ω E Q A α) : Option (Timed τ' D × ω') :=
  match r.out with
  | .answered _ node ⟨q, a⟩ =>
    if node = n then (loc.op q).bind fun d => (loc.answer q a).map fun w => (⟨loc.clock n r.ev.time, d⟩, w)
    else none
  | _ => none

def Local.consultations (l : List (Rec σ τ N L M C ω E Q A α)) : List (Timed τ' D × ω') :=
  l.filterMap (loc.consultation n)

theorem Local.consultations_concat (l : List (Rec σ τ N L M C ω E Q A α)) (r : Rec σ τ N L M C ω E Q A α) :
    loc.consultations n (l ++ [r]) = loc.consultations n l ++ (loc.consultation n r).toList := by
  unfold Local.consultations
  rw [List.filterMap_append]
  cases h : loc.consultation n r <;> simp [h]

/-- The machine of a node is asked in the order of the steps. -/
theorem Local.time_sublist (l : List (Rec σ τ N L M C ω E Q A α)) :
    (((loc.consultations n l).map Prod.fst).map Timed.time).Sublist
      (l.map fun r => loc.clock n r.ev.time) := by
  induction l with
  | nil => exact List.Sublist.refl _
  | cons r l ih =>
    unfold Local.consultations at ih ⊢
    rw [List.filterMap_cons]
    cases h : loc.consultation n r with
    | none =>
      rw [List.map_cons]
      exact ih.cons _
    | some x =>
      have hx : x.1.time = loc.clock n r.ev.time := by
        unfold Local.consultation at h
        split at h
        · split_ifs at h
          obtain ⟨d, -, hd⟩ := Option.bind_eq_some_iff.mp h
          obtain ⟨w, -, rfl⟩ := Option.map_eq_some_iff.mp hd
          rfl
        · cases h
      simp only [List.map_cons, hx]
      exact ih.cons_cons _

/-- **The run of a node's machine.** -/
theorem Local.node_run (es : List (Timed τ (Ev N M E Q A))) :
    loc.view ((after net es).nodes n) = B.exec (loc.view (net.node n))
        ((loc.consultations n (history net es)).map Prod.fst) ∧
      (B.log (loc.view (net.node n)) ((loc.consultations n (history net es)).map Prod.fst)).map
          (fun r => (r.ev, r.out)) = loc.consultations n (history net es) := by
  refine Mealy.log_induct (machine net) (s := (machine net).init)
    (P := fun l s => loc.view (s.nodes n) = B.exec (loc.view (net.node n))
        ((loc.consultations n l).map Prod.fst) ∧
      (B.log (loc.view (net.node n)) ((loc.consultations n l).map Prod.fst)).map
        (fun r => (r.ev, r.out)) = loc.consultations n l) ⟨rfl, rfl⟩ (fun l s e hI => ?_) es
  have hstill : loc.consultation n ((machine net).record s e) = none →
      loc.view (((machine net).next s e).nodes n) = loc.view (s.nodes n) →
      loc.view (((machine net).next s e).nodes n) = B.exec (loc.view (net.node n))
        ((loc.consultations n (l ++ [(machine net).record s e])).map Prod.fst) ∧
      (B.log (loc.view (net.node n)) ((loc.consultations n (l ++ [(machine net).record s e])).map Prod.fst)).map
        (fun r => (r.ev, r.out)) = loc.consultations n (l ++ [(machine net).record s e]) := by
    intro hc hview
    rw [loc.consultations_concat, hc, hview, Option.toList_none, List.append_nil]
    exact hI
  cases moved net s e with
  | ignored ho h =>
    have hpost : (machine net).next s e = s := h
    exact hstill (by rw [consultation, ho]) (by rw [hpost])
  | spawned id node request hev hfree ho h =>
    have hpost : (machine net).next s e = _ := h
    exact hstill (by rw [consultation, ho]) (by rw [hpost]; rfl)
  | sent id node request q next x hat hx ho h =>
    have hpost : (machine net).next s e = _ := h
    exact hstill (by rw [consultation, ho]) (by rw [hpost]; rfl)
  | executed tag c server w hat hserver ho h =>
    have hpost : (machine net).next s e = _ := h
    exact hstill (by rw [consultation, ho]) (by rw [hpost]; rfl)
  | delivered id node request q next x tag at_ c w hat hx hf ho h =>
    have hpost : (machine net).next s e = _ := h
    exact hstill (by rw [consultation, ho]) (by rw [hpost]; rfl)
  | failed id node request q next x tag exc hat hx ho h =>
    have hpost : (machine net).next s e = _ := h
    exact hstill (by rw [consultation, ho]) (by rw [hpost]; rfl)
  | answered id node request q next tag a₀ a l' hat hx hserve ho h =>
    have hpost : (machine net).next s e = _ := h
    have hnodes : ((machine net).next s e).nodes = Function.update s.nodes node l' := by rw [hpost]; rfl
    have hserve' : net.serve e.time node (s.nodes node) q a₀ = (a, l') := hserve
    by_cases hn : node = n
    · subst hn
      cases hop : loc.op q with
      | none =>
        refine hstill (by rw [consultation, ho]; simp [hop]) ?_
        rw [hnodes, Function.update_self]
        have hview := loc.still e.time node (s.nodes node) a₀ hop
        rwa [hserve'] at hview
      | some d =>
        obtain ⟨hview, hans⟩ := loc.step e.time node (s.nodes node) a₀ hop
        rw [hserve'] at hview hans
        set st := B.step (loc.view (s.nodes node)) ⟨loc.clock node e.time, d⟩ with hst
        have hc : loc.consultation node ((machine net).record s e) =
            some (⟨loc.clock node e.time, d⟩, st.2) := by
          rw [consultation, ho]
          simp [hop, hans]
        obtain ⟨hexec, hlog⟩ := hI
        rw [hexec] at hst
        rw [loc.consultations_concat, hc, Option.toList_some, List.map_append, List.map_cons, List.map_nil,
          Mealy.exec_concat, Mealy.log_concat, List.map_append, hlog, hnodes, Function.update_self, hview]
        refine ⟨congrArg Prod.fst hst, ?_⟩
        have hout : B.out (B.exec (loc.view (net.node node)) ((loc.consultations node l).map Prod.fst))
            ⟨loc.clock node e.time, d⟩ = st.2 := (congrArg Prod.snd hst).symm
        simp [hout]
    · refine hstill (by rw [consultation, ho]; exact if_neg hn) ?_
      rw [hnodes, Function.update_of_ne (Ne.symm hn)]

/-- **Counting** on a node: at most as many of its calls get an answer of a kind as its machine gave. -/
theorem Local.card_le_consulted {S : Finset ℕ} {p : τ' × D × ω' → Bool} (es : List (Timed τ (Ev N M E Q A)))
    (h : ∀ id ∈ S, ∃ r ∈ history net es, ∃ q a d w, r.out = .answered id n ⟨q, a⟩ ∧ loc.op q = some d ∧
      loc.answer q a = some w ∧ p (loc.clock n r.ev.time, d, w) = true) :
    S.card ≤ (B.log (loc.view (net.node n)) ((loc.consultations n (history net es)).map Prod.fst)).countP
      fun r => p (r.ev.time, r.ev.ev, r.out) := by
  let kind : Timed τ' D × ω' → Bool := fun x => p (x.1.time, x.1.ev, x.2)
  have hsteps : S.card ≤ (history net es).countP
      fun r => ((loc.consultation n r).map kind).getD false := by
    refine card_le_countP (fun r => match r.out with
      | .answered id _ _ => some id
      | _ => none) fun id hid => ?_
    obtain ⟨r, hr, q, a, d, w, ho, hop, hans, hp⟩ := h id hid
    refine ⟨r, hr, ?_, by rw [ho]⟩
    have hc : loc.consultation n r = some (⟨loc.clock n r.ev.time, d⟩, w) := by
      rw [consultation, ho]
      simp [hop, hans]
    rw [hc]
    exact hp
  have hcount : ∀ l : List (Rec σ τ N L M C ω E Q A α),
      l.countP (fun r => ((loc.consultation n r).map kind).getD false) =
        (loc.consultations n l).countP kind := by
    intro l
    unfold Local.consultations
    rw [List.countP_filterMap]
  calc S.card ≤ _ := hsteps
    _ = (loc.consultations n (history net es)).countP kind := hcount _
    _ = _ := by
      have hrun := congrArg (List.countP kind) (loc.node_run n es).2
      rw [List.countP_map] at hrun
      exact hrun.symm

end Local

end Remote

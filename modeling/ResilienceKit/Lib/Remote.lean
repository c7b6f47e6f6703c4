import Mathlib.Logic.Function.Basic
import ResilienceKit.Lib.Mealy
import ResilienceKit.Lib.Program

/-!
# Remote — calls on many nodes that talk to one server

Every call runs a program on its node.  A question that is on the `Wire` is a command of the server: `send`
puts it under way, `execute` runs it at the server, `deliver` brings the reply to the call.  Between these
steps anything may happen, and each of them may never happen.  A call may `fail` at a command at any time; the
command stays under way and the server may still run it.  The node answers the other questions.

`moved` says what a step can do, and `server_run` that what reaches the server is a run of its own.
-/

namespace Remote

open Program
open Mealy (Timed)

/-- A question that goes to the server: the command, and what the call makes of the reply or of its loss. -/
structure Wire (C ω E β : Type) where
  command : C
  receive : ω → β
  lost : E → β

/-- A command under way, or its reply. -/
inductive Flight (τ C ω : Type)
  | sent (c : C)
  | replied (at_ : τ) (c : C) (w : ω)

/-- A call, and the tag of the command it waits for. -/
structure Call (N M Q : Type) (A : Q → Type) (α : Type) where
  node : N
  request : M
  prog : Program Q A α
  tag : Option ℕ := none

structure Sys (σ τ N L M C ω Q : Type) (A : Q → Type) (α : Type) where
  server : σ
  nodes : N → L
  calls : ℕ → Option (Call N M Q A α)
  flights : ℕ → Option (Flight τ C ω)
  fresh : ℕ

inductive Ev (N M E Q : Type) (A : Q → Type)
  | spawn (id : ℕ) (node : N) (request : M)
  | send (id : ℕ)
  | execute (tag : ℕ)
  | deliver (id : ℕ)
  | fail (id : ℕ) (exc : E)
  | answer (id : ℕ) (reply : (q : Q) → A q)

inductive Out (τ N M C ω Q : Type) (A : Q → Type)
  | ignored
  | spawned (id : ℕ) (node : N) (request : M)
  | sent (id tag : ℕ)
  | executed (tag : ℕ) (c : C) (w : ω)
  | delivered (id tag : ℕ) (at_ : τ) (c : C) (w : ω) (x : Exchange A)
  | failed (id : ℕ) (x : Exchange A)
  | answered (id : ℕ) (node : N) (x : Exchange A)

variable {σ τ N L M C ω E Q α : Type} {A : Q → Type}

/-- A recorded step. -/
abbrev Rec (σ τ N L M C ω E Q : Type) (A : Q → Type) (α : Type) :=
  Mealy.Step (Sys σ τ N L M C ω Q A α) (Timed τ (Ev N M E Q A)) (Out τ N M C ω Q A)

/-! ### What a history shows -/

section History

variable (l : List (Rec σ τ N L M C ω E Q A α)) (r : Rec σ τ N L M C ω E Q A α)

/-- A reply of the server, with the time at which the command ran. -/
structure Reply (τ C ω : Type) where
  tag : ℕ
  at_ : τ
  command : C
  answer : ω
  deriving DecidableEq

def execution : Option (Reply τ C ω) :=
  match r.out with
  | .executed tag c w => some ⟨tag, r.ev.time, c, w⟩
  | _ => none

def delivery : Option (ℕ × Reply τ C ω) :=
  match r.out with
  | .delivered id tag at_ c w _ => some (id, ⟨tag, at_, c, w⟩)
  | _ => none

/-- What a step tells the call `id`. -/
def exchange (id : ℕ) : Option (Exchange A) :=
  match r.out with
  | .delivered id' _ _ _ _ x => if id' = id then some x else none
  | .failed id' x => if id' = id then some x else none
  | .answered id' _ x => if id' = id then some x else none
  | _ => none

/-- The replies that the server gave. -/
def executions : List (Reply τ C ω) := l.filterMap execution

/-- The replies that reached a call. -/
def deliveries : List (ℕ × Reply τ C ω) := l.filterMap delivery

/-- What the server was told. -/
def served : List (Timed τ C) := (executions l).map fun x => ⟨x.at_, x.command⟩

/-- What one call has asked and been answered. -/
def exchanges (id : ℕ) : List (Exchange A) := l.filterMap fun r => exchange r id

theorem executions_concat : executions (l ++ [r]) = executions l ++ (execution r).toList := by
  unfold executions
  rw [List.filterMap_append]
  cases h : execution r <;> simp [h]

/-- The server runs commands in the order of the steps. -/
theorem served_time_sublist : ((served l).map Timed.time).Sublist (l.map fun r => r.ev.time) := by
  induction l with
  | nil => exact List.Sublist.refl _
  | cons r l ih =>
    unfold served executions at ih ⊢
    rw [List.filterMap_cons]
    cases h : execution r with
    | none =>
      rw [List.map_cons]
      exact ih.cons _
    | some x =>
      have hx : x.at_ = r.ev.time := by
        unfold execution at h
        split at h
        · exact (congrArg Reply.at_ (Option.some.inj h)).symm
        · cases h
      simp only [List.map_cons, hx]
      exact ih.cons_cons _

theorem deliveries_concat : deliveries (l ++ [r]) = deliveries l ++ (delivery r).toList := by
  unfold deliveries
  rw [List.filterMap_append]
  cases h : delivery r <;> simp [h]

theorem exchanges_concat (id : ℕ) :
    exchanges (l ++ [r]) id = exchanges l id ++ (exchange r id).toList := by
  unfold exchanges
  rw [List.filterMap_append]
  cases h : exchange r id <;> simp [h]

end History

/-! ### Steps -/

/-- Where only the call `id'` changed, and waits for nothing, every waiting call waited before. -/
theorem waiting_of_update {calls : ℕ → Option (Call N M Q A α)} {id' : ℕ} {node' : N} {request' : M}
    {prog : Program Q A α} (id : ℕ) (node : N) (request : M) (q : Q) (next : A q → Program Q A α) (tag : ℕ)
    (h : Function.update calls id' (some ⟨node', request', prog, none⟩) id =
      some ⟨node, request, .ask q next, some tag⟩) :
    calls id = some ⟨node, request, .ask q next, some tag⟩ := by
  by_cases hid : id = id'
  · subst hid
    rw [Function.update_self] at h
    cases h
  · rwa [Function.update_of_ne hid] at h

variable [DecidableEq N]

/-- The nodes, the network and the server. -/
structure Net (σ τ N L M C ω E Q : Type) (A : Q → Type) (α : Type) where
  server : Mealy σ (Timed τ C) ω
  wire : (q : Q) → Option (Wire C ω E (A q))
  serve : τ → N → L → (q : Q) → A q → A q × L
  prog : M → Program Q A α
  node : N → L

/-- One step of the system. -/
def step (net : Net σ τ N L M C ω E Q A α) (s : Sys σ τ N L M C ω Q A α) (e : Timed τ (Ev N M E Q A)) :
    Sys σ τ N L M C ω Q A α × Out τ N M C ω Q A :=
  match e.ev with
  | .spawn id node request =>
    match s.calls id with
    | none => ({ s with calls := Function.update s.calls id (some ⟨node, request, net.prog request, none⟩) },
        .spawned id node request)
    | some _ => (s, .ignored)
  | .send id =>
    match s.calls id with
    | some ⟨node, request, .ask q next, none⟩ =>
      match net.wire q with
      | some x => ({ s with
          calls := Function.update s.calls id (some ⟨node, request, .ask q next, some s.fresh⟩)
          flights := Function.update s.flights s.fresh (some (.sent x.command))
          fresh := s.fresh + 1 }, .sent id s.fresh)
      | none => (s, .ignored)
    | _ => (s, .ignored)
  | .execute tag =>
    match s.flights tag with
    | some (.sent c) =>
      let (server, w) := net.server.step s.server ⟨e.time, c⟩
      ({ s with server, flights := Function.update s.flights tag (some (.replied e.time c w)) },
        .executed tag c w)
    | _ => (s, .ignored)
  | .deliver id =>
    match s.calls id with
    | some ⟨node, request, .ask q next, some tag⟩ =>
      match net.wire q, s.flights tag with
      | some x, some (.replied at_ c w) => ({ s with
          calls := Function.update s.calls id (some ⟨node, request, next (x.receive w), none⟩)
          flights := Function.update s.flights tag none },
          .delivered id tag at_ c w ⟨q, x.receive w⟩)
      | _, _ => (s, .ignored)
    | _ => (s, .ignored)
  | .fail id exc =>
    match s.calls id with
    | some ⟨node, request, .ask q next, _⟩ =>
      match net.wire q with
      | some x => ({ s with
          calls := Function.update s.calls id (some ⟨node, request, next (x.lost exc), none⟩) },
          .failed id ⟨q, x.lost exc⟩)
      | none => (s, .ignored)
    | _ => (s, .ignored)
  | .answer id reply =>
    match s.calls id with
    | some ⟨node, request, .ask q next, _⟩ =>
      match net.wire q with
      | some _ => (s, .ignored)
      | none =>
        let (a, l) := net.serve e.time node (s.nodes node) q (reply q)
        ({ s with
          nodes := Function.update s.nodes node l
          calls := Function.update s.calls id (some ⟨node, request, next a, none⟩) },
          .answered id node ⟨q, a⟩)
    | _ => (s, .ignored)

def machine (net : Net σ τ N L M C ω E Q A α) :
    Mealy (Sys σ τ N L M C ω Q A α) (Timed τ (Ev N M E Q A)) (Out τ N M C ω Q A) where
  init := ⟨net.server.init, net.node, fun _ => none, fun _ => none, 0⟩
  step := step net

/-- What one step can do. -/
inductive Moved (net : Net σ τ N L M C ω E Q A α) (r : Rec σ τ N L M C ω E Q A α) : Prop
  | ignored (ho : r.out = .ignored) (h : r.post = r.pre)
  | spawned (id : ℕ) (node : N) (request : M) (hev : r.ev.ev = .spawn id node request)
      (hfree : r.pre.calls id = none)
      (ho : r.out = .spawned id node request)
      (h : r.post = { r.pre with
        calls := Function.update r.pre.calls id (some ⟨node, request, net.prog request, none⟩) })
  | sent (id : ℕ) (node : N) (request : M) (q : Q) (next : A q → Program Q A α) (x : Wire C ω E (A q))
      (hat : r.pre.calls id = some ⟨node, request, .ask q next, none⟩) (hx : net.wire q = some x)
      (ho : r.out = .sent id r.pre.fresh)
      (h : r.post = { r.pre with
        calls := Function.update r.pre.calls id (some ⟨node, request, .ask q next, some r.pre.fresh⟩)
        flights := Function.update r.pre.flights r.pre.fresh (some (.sent x.command))
        fresh := r.pre.fresh + 1 })
  | executed (tag : ℕ) (c : C) (server : σ) (w : ω) (hat : r.pre.flights tag = some (.sent c))
      (hserver : net.server.step r.pre.server ⟨r.ev.time, c⟩ = (server, w))
      (ho : r.out = .executed tag c w)
      (h : r.post = { r.pre with
        server := server
        flights := Function.update r.pre.flights tag (some (.replied r.ev.time c w)) })
  | delivered (id : ℕ) (node : N) (request : M) (q : Q) (next : A q → Program Q A α) (x : Wire C ω E (A q))
      (tag : ℕ) (at_ : τ) (c : C) (w : ω)
      (hat : r.pre.calls id = some ⟨node, request, .ask q next, some tag⟩) (hx : net.wire q = some x)
      (hf : r.pre.flights tag = some (.replied at_ c w))
      (ho : r.out = .delivered id tag at_ c w ⟨q, x.receive w⟩)
      (h : r.post = { r.pre with
        calls := Function.update r.pre.calls id (some ⟨node, request, next (x.receive w), none⟩)
        flights := Function.update r.pre.flights tag none })
  | failed (id : ℕ) (node : N) (request : M) (q : Q) (next : A q → Program Q A α) (x : Wire C ω E (A q))
      (tag : Option ℕ) (exc : E)
      (hat : r.pre.calls id = some ⟨node, request, .ask q next, tag⟩) (hx : net.wire q = some x)
      (ho : r.out = .failed id ⟨q, x.lost exc⟩)
      (h : r.post = { r.pre with
        calls := Function.update r.pre.calls id (some ⟨node, request, next (x.lost exc), none⟩) })
  | answered (id : ℕ) (node : N) (request : M) (q : Q) (next : A q → Program Q A α) (tag : Option ℕ)
      (a₀ a : A q) (l : L)
      (hat : r.pre.calls id = some ⟨node, request, .ask q next, tag⟩) (hx : net.wire q = none)
      (hserve : net.serve r.ev.time node (r.pre.nodes node) q a₀ = (a, l))
      (ho : r.out = .answered id node ⟨q, a⟩)
      (h : r.post = { r.pre with
        nodes := Function.update r.pre.nodes node l
        calls := Function.update r.pre.calls id (some ⟨node, request, next a, none⟩) })

/-- **Inversion.** -/
theorem moved (net : Net σ τ N L M C ω E Q A α) (s : Sys σ τ N L M C ω Q A α)
    (e : Timed τ (Ev N M E Q A)) : Moved net ((machine net).record s e) := by
  have hrec : ∀ {s' o}, step net s e = (s', o) →
      ((machine net).record s e).post = s' ∧ ((machine net).record s e).out = o := by
    rintro s' o h
    exact ⟨congrArg Prod.fst h, congrArg Prod.snd h⟩
  have hignored : step net s e = (s, .ignored) → Moved net ((machine net).record s e) :=
    fun h => .ignored (hrec h).2 (hrec h).1
  obtain ⟨t, ev⟩ := e
  cases ev with
  | spawn id node request =>
    cases hs : s.calls id with
    | none =>
      obtain ⟨hpost, hout⟩ := hrec (by simp only [step, hs]; rfl)
      exact .spawned id node request rfl hs hout hpost
    | some c => exact hignored (by simp only [step, hs])
  | send id =>
    rcases hs : s.calls id with _ | ⟨node, request, _ | ⟨q, next⟩, _ | tag⟩
    · exact hignored (by simp only [step, hs])
    · exact hignored (by simp only [step, hs])
    · exact hignored (by simp only [step, hs])
    · cases hx : net.wire q with
      | none => exact hignored (by simp only [step, hs, hx])
      | some x =>
        obtain ⟨hpost, hout⟩ := hrec (by simp only [step, hs, hx]; rfl)
        exact .sent id node request q next x hs hx hout hpost
    · exact hignored (by simp only [step, hs])
  | execute tag =>
    rcases hs : s.flights tag with _ | (c | ⟨at_, c, w⟩)
    · exact hignored (by simp only [step, hs])
    · obtain ⟨hpost, hout⟩ := hrec (by simp only [step, hs]; rfl)
      exact .executed tag c _ _ hs rfl hout hpost
    · exact hignored (by simp only [step, hs])
  | deliver id =>
    rcases hs : s.calls id with _ | ⟨node, request, _ | ⟨q, next⟩, _ | tag⟩
    · exact hignored (by simp only [step, hs])
    · exact hignored (by simp only [step, hs])
    · exact hignored (by simp only [step, hs])
    · exact hignored (by simp only [step, hs])
    · cases hx : net.wire q with
      | none => exact hignored (by simp only [step, hs, hx])
      | some x =>
        rcases hf : s.flights tag with _ | (c | ⟨at_, c, w⟩)
        · exact hignored (by simp only [step, hs, hx, hf])
        · exact hignored (by simp only [step, hs, hx, hf])
        · obtain ⟨hpost, hout⟩ := hrec (by simp only [step, hs, hx, hf]; rfl)
          exact .delivered id node request q next x tag at_ c w hs hx hf hout hpost
  | fail id exc =>
    rcases hs : s.calls id with _ | ⟨node, request, _ | ⟨q, next⟩, tag⟩
    · exact hignored (by simp only [step, hs])
    · exact hignored (by simp only [step, hs])
    · cases hx : net.wire q with
      | none => exact hignored (by simp only [step, hs, hx])
      | some x =>
        obtain ⟨hpost, hout⟩ := hrec (by simp only [step, hs, hx]; rfl)
        exact .failed id node request q next x tag exc hs hx hout hpost
  | answer id reply =>
    rcases hs : s.calls id with _ | ⟨node, request, _ | ⟨q, next⟩, tag⟩
    · exact hignored (by simp only [step, hs])
    · exact hignored (by simp only [step, hs])
    · cases hx : net.wire q with
      | some x => exact hignored (by simp only [step, hs, hx])
      | none =>
        obtain ⟨hpost, hout⟩ := hrec (by simp only [step, hs, hx]; rfl)
        exact .answered id node request q next tag (reply q) _ _ hs hx rfl hout hpost

/-! ### The server's run -/

variable {net : Net σ τ N L M C ω E Q A α}

/-- The state after a run from the start. -/
abbrev after (net : Net σ τ N L M C ω E Q A α) (es : List (Timed τ (Ev N M E Q A))) :
    Sys σ τ N L M C ω Q A α :=
  (machine net).exec (machine net).init es

abbrev history (net : Net σ τ N L M C ω E Q A α) (es : List (Timed τ (Ev N M E Q A))) :
    List (Rec σ τ N L M C ω E Q A α) :=
  (machine net).log (machine net).init es

/-- A step at which the server does not run anything. -/
theorem server_still {r : Rec σ τ N L M C ω E Q A α} (h : Moved net r) (hr : execution r = none) :
    r.post.server = r.pre.server := by
  cases h with
  | ignored ho h => rw [h]
  | spawned id node request hev hfree ho h => rw [h]
  | sent id node request q next x hat hx ho h => rw [h]
  | executed tag c server w hat hserver ho h =>
    rw [execution, ho] at hr
    cases hr
  | delivered id node request q next x tag at_ c w hat hx hf ho h => rw [h]
  | failed id node request q next x tag exc hat hx ho h => rw [h]
  | answered id node request q next tag a₀ a l hat hx hserve ho h => rw [h]

/-- **The server's run**: what reaches the server is a run of the server alone, and its answers there are the
replies that it gives. -/
theorem server_run (net : Net σ τ N L M C ω E Q A α) (es : List (Timed τ (Ev N M E Q A))) :
    (after net es).server = net.server.exec net.server.init (served (history net es)) ∧
      (net.server.log net.server.init (served (history net es))).map
          (fun r => (r.ev.time, r.ev.ev, r.out)) =
        (executions (history net es)).map fun x => (x.at_, x.command, x.answer) := by
  refine Mealy.log_induct (machine net) (s := (machine net).init)
    (P := fun l s => s.server = net.server.exec net.server.init (served l) ∧
      (net.server.log net.server.init (served l)).map (fun r => (r.ev.time, r.ev.ev, r.out)) =
        (executions l).map fun x => (x.at_, x.command, x.answer)) ⟨rfl, rfl⟩ (fun l s e hI => ?_) es
  have hmoved := moved net s e
  cases hx : execution ((machine net).record s e) with
  | none =>
    have hstill : ((machine net).next s e).server = s.server := server_still hmoved hx
    rw [served, executions_concat, hx, Option.toList_none, List.append_nil, hstill]
    exact hI
  | some x =>
    obtain ⟨hserver, hlog⟩ := hI
    cases hmoved with
    | executed tag c server w hat hstep ho h =>
      have hs : (machine net).next s e = _ := h
      have hrec : x = ⟨tag, e.time, c, w⟩ := by
        rw [execution, ho] at hx
        exact (Option.some.inj hx).symm
      have hnext : net.server.step (net.server.exec net.server.init (served l)) ⟨e.time, c⟩ = (server, w) := by
        rw [← hserver]
        exact hstep
      have hserved : served (l ++ [(machine net).record s e]) = served l ++ [⟨e.time, c⟩] := by
        rw [served, executions_concat, hx, hrec, List.map_append]
        rfl
      rw [hserved, executions_concat, hx, hrec, hs, Mealy.exec_concat, Mealy.log_concat, List.map_append, hlog,
        List.map_append]
      refine ⟨(congrArg Prod.fst hnext).symm, ?_⟩
      have hout : net.server.out (net.server.exec net.server.init (served l)) ⟨e.time, c⟩ = w :=
        congrArg Prod.snd hnext
      simp [hout]
    | ignored ho h => rw [execution, ho] at hx; cases hx
    | spawned id node request hev hfree ho h => rw [execution, ho] at hx; cases hx
    | sent id node request q next x hat hx' ho h => rw [execution, ho] at hx; cases hx
    | delivered id node request q next x tag at_ c w hat hx' hf ho h => rw [execution, ho] at hx; cases hx
    | failed id node request q next x tag exc hat hx' ho h => rw [execution, ho] at hx; cases hx
    | answered id node request q next tag a₀ a l hat hx' hserve ho h => rw [execution, ho] at hx; cases hx

end Remote

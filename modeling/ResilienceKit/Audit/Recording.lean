import ResilienceKit.Audit.Events
import ResilienceKit.Runtime

/-!
# Audit.Recording — handing over a record

The decorators and the HTTP client run a call and hand a record of it to the audit dispatcher, or to a hook.
`Truthful` says what they owe: one record, which tells whether the call returned, and the call's own end.
`Hands` is what a piece of recording code leaves, `Hands.truthful_iff` what follows for the whole.
-/

namespace ResilienceKit.Audit

open Program Code

/-- `Mapping[str, Any]`, where `A` has the values. -/
abbrev Mapping (A : Type) := List (String × A)

/-- What the HTTP client publishes after every request. -/
structure OutboundCall (A : Type) where
  service : String
  method : String
  url : String
  status : Option ℕ
  latencyMs : ℚ
  errorClass : Option String := none
  errorCode : Option String := none
  details : Mapping A := []

/-- A record as it is handed over. -/
inductive Record (A : Type)
  | event (event : AuditEvent (Mapping A))
  | call (call : OutboundCall A)

/-- `invoke` is the audited call itself. -/
inductive AuditAsk (A : Type)
  | monotonic
  | invoke
  | openClient
  | closeClient
  | payloadFactory
  | requestId
  | correlationId
  | time
  | getDispatcher
  | submit (event : AuditEvent (Mapping A))
  | onOutbound (call : OutboundCall A)

/-- `none` stands for a call that returns; `V` has the values that the audited call returns. -/
@[reducible] def AuditAnswer (A V : Type) : AuditAsk A → Type
  | .monotonic => ℚ
  | .invoke => Outcome V
  | .openClient => Option PyExc
  | .closeClient => Option PyExc
  | .payloadFactory => Outcome (Mapping A)
  | .requestId => Option String
  | .correlationId => Option String
  | .time => ℚ
  | .getDispatcher => Option PyExc
  | .submit _ => Option PyExc
  | .onOutbound _ => Option PyExc

abbrev AuditCode (A V α : Type) := Code (AuditAsk A) (AuditAnswer A V) PyExc α

abbrev AuditHistory (A V : Type) := List (Exchange (AuditAnswer A V))

/-- The record that a question hands over. -/
def AuditAsk.record? {A : Type} : AuditAsk A → Option (Record A)
  | .submit event => some (.event event)
  | .onOutbound call => some (.call call)
  | _ => none

/-- How the audited call ended. -/
def AuditAsk.outcome? {A V : Type} : (q : AuditAsk A) → AuditAnswer A V q → Option (Outcome V)
  | .invoke, o => some o
  | _, _ => none

/-- `type(exc).__name__` and `getattr(exc, "error_code", None)`. -/
structure ExcInfo where
  typeName : PyExc → String
  errorCode : PyExc → Option String

variable {A V : Type}

/-- `get_dispatcher().submit(event)` -/
def submit (event : AuditEvent (Mapping A)) : AuditCode A V Unit := do
  let built ← perform AuditAsk.getDispatcher
  Code.ofExcept (Py.raised built)
  let submitted ← perform (AuditAsk.submit event)
  Code.ofExcept (Py.raised submitted)

/-! ### What is owed -/

/-- The record tells whether the call returned. -/
def Record.Says : Record A → Except PyExc V → Prop
  | .event e, r => (e.outcome = .success ↔ ∃ v, r = .ok v) ∧ (e.errorClass = none ↔ ∃ v, r = .ok v)
  | .call c, r => c.errorClass = none ↔ ∃ v, r = .ok v

/-- One record that tells the truth about the call, and the call's own end. -/
structure Truthful (call : Except PyExc V) (h : AuditHistory A V) (r : Except PyExc V) : Prop where
  one : ∃ record, seen AuditAsk.record? h = [record] ∧ record.Says call
  result : r = call

/-- The call returned or raised an `Exception`. -/
def Ordinary (call : Except PyExc V) : Prop := ∀ exc, call = .error exc → isinstance exc .exception = true

/-- The audit side goes about its business: the dispatcher is there, and nothing but an `Exception` comes
out of a payload factory, a dispatcher or a hook. -/
def Harmless : Exchange (AuditAnswer A V) → Prop
  | ⟨.payloadFactory, o⟩ => Ordinary o.result
  | ⟨.getDispatcher, built⟩ => built = none
  | ⟨.submit _, submitted⟩ => Ordinary (Py.raised submitted)
  | ⟨.onOutbound _, called⟩ => Ordinary (Py.raised called)
  | _ => True

/-! ### What recording code leaves -/

/-- The code handed over one record with `P` and went on, or its surroundings kept it from the record, or
from going on. -/
inductive Hands (P : Record A → Prop) : AuditHistory A V → Except PyExc Unit → Prop
  | done {g : AuditHistory A V} {record : Record A} (harmless : ∀ x ∈ g, Harmless x)
      (one : seen AuditAsk.record? g = [record]) (holds : P record) : Hands P g (.ok ())
  | lost {g : AuditHistory A V} {r : Except PyExc Unit} (harm : ∃ x ∈ g, ¬ Harmless x)
      (none : seen AuditAsk.record? g = []) : Hands P g r
  | broken {g : AuditHistory A V} {record : Record A} {exc : PyExc} (harm : ∃ x ∈ g, ¬ Harmless x)
      (one : seen AuditAsk.record? g = [record]) (holds : P record)
      (exits : isinstance exc .exception = false) : Hands P g (.error exc)

namespace Hands

variable {P : Record A → Prop} {g : AuditHistory A V} {r : Except PyExc Unit}

/-- What was asked before, without a record and without harm. -/
theorem prepend (pre : AuditHistory A V) (h : Hands P g r) (hpre : ∀ x ∈ pre, Harmless x)
    (hnone : seen AuditAsk.record? pre = []) : Hands P (pre ++ g) r := by
  have hseen : seen AuditAsk.record? (pre ++ g) = seen AuditAsk.record? g := by
    rw [seen_append, hnone, List.nil_append]
  have hharm : (∃ x ∈ g, ¬ Harmless x) → ∃ x ∈ pre ++ g, ¬ Harmless x := by
    rintro ⟨x, hx, hn⟩
    exact ⟨x, List.mem_append_right pre hx, hn⟩
  cases h with
  | done harmless one holds =>
    refine .done (fun x hx => ?_) (hseen.trans one) holds
    rcases List.mem_append.mp hx with hx | hx
    · exact hpre x hx
    · exact harmless x hx
  | lost harm none => exact .lost (hharm harm) (hseen.trans none)
  | broken harm one holds exits => exact .broken (hharm harm) (hseen.trans one) holds exits

theorem mono {P' : Record A → Prop} (h : Hands P g r) (hP : ∀ record, P record → P' record) :
    Hands P' g r := by
  cases h with
  | done harmless one holds => exact .done harmless one (hP _ holds)
  | lost harm none => exact .lost harm none
  | broken harm one holds exits => exact .broken harm one (hP _ holds) exits

/-- The call's own end after the recording. -/
def thenEnd (call : Except PyExc V) : Except PyExc Unit → Except PyExc V
  | .ok () => call
  | .error exc => .error exc

variable {call : Except PyExc V}

/-- A record that tells the truth about an ordinary call is what is owed, exactly if the audit side does no
harm. -/
theorem truthful_iff (h : Hands P g r) (hcall : Ordinary call) (hP : ∀ record, P record → record.Says call) :
    Truthful call g (thenEnd call r) ↔ ∀ x ∈ g, Harmless x := by
  cases h with
  | done harmless one holds => exact iff_of_true ⟨⟨_, one, hP _ holds⟩, rfl⟩ harmless
  | lost harm none =>
    obtain ⟨x, hx, hn⟩ := harm
    refine iff_of_false (fun ht => ?_) fun hall => hn (hall x hx)
    obtain ⟨record, hrec, -⟩ := ht.one
    rw [none] at hrec
    cases hrec
  | broken harm one holds exits =>
    obtain ⟨x, hx, hn⟩ := harm
    refine iff_of_false (fun ht => ?_) fun hall => hn (hall x hx)
    -- the call did not end in what the recording raised
    have hexc := hcall _ ht.result.symm
    rw [exits] at hexc
    cases hexc

/-- A record that does not tell the truth is not what is owed. -/
theorem not_truthful (h : Hands P g r) (hP : ∀ record, P record → ¬ record.Says call)
    {r' : Except PyExc V} : ¬ Truthful call g r' := by
  rintro ⟨⟨record, hrec, hsays⟩, -⟩
  cases h with
  | done harmless one holds =>
    obtain ⟨rfl, -⟩ := List.cons.inj (one.symm.trans hrec)
    exact hP _ holds hsays
  | lost harm none => cases none.symm.trans hrec
  | broken harm one holds exits =>
    obtain ⟨rfl, -⟩ := List.cons.inj (one.symm.trans hrec)
    exact hP _ holds hsays

end Hands


theorem not_ordinary_error {exc : PyExc} (h : isinstance exc .exception = false) :
    ¬ Ordinary (.error exc : Except PyExc V) := fun ho => by
  have := ho exc rfl
  rw [h] at this
  cases this

theorem ordinary_error {exc : PyExc} (h : isinstance exc .exception = true) :
    Ordinary (.error exc : Except PyExc V) := by
  rintro exc' ⟨⟩
  exact h

theorem ordinary_ok (v : V) : Ordinary (.ok v : Except PyExc V) := by
  rintro exc ⟨⟩

/-- A call that hands over a record itself. -/
theorem Hands.of_handing {record : Record A} {a : Option PyExc} {g : AuditHistory A V}
    {x : Exchange (AuditAnswer A V)} (hg : ∀ y ∈ g, Harmless y)
    (hnone : seen AuditAsk.record? g = []) (hx : x.1.record? = some record)
    (hharm : Harmless x ↔ Ordinary (Py.raised a)) :
    Hands (· = record) (g ++ [x]) (Py.swallowed (Py.raised a)) := by
  have hone : seen AuditAsk.record? (g ++ [x]) = [record] := by
    rw [seen_append, hnone, List.nil_append, seen_cons, hx]
    rfl
  have hall : Harmless x → ∀ y ∈ g ++ [x], Harmless y := fun h y hy => by
    rcases List.mem_append.mp hy with hy | hy
    · exact hg y hy
    · obtain rfl := List.mem_singleton.mp hy
      exact h
  cases a with
  | none => exact .done (hall (hharm.mpr (ordinary_ok ()))) hone rfl
  | some exc =>
    simp only [Py.raised, Py.swallowed]
    cases hexc : isinstance exc .exception with
    | true => exact .done (hall (hharm.mpr (ordinary_error hexc))) hone rfl
    | false =>
      refine .broken ⟨x, List.mem_append_right g (List.mem_singleton.mpr rfl), ?_⟩ hone rfl hexc
      exact mt hharm.mp (not_ordinary_error hexc)

/-- **Run lemma** for handing an event to the dispatcher. -/
theorem exec_submit (env : Env (AuditAnswer A V)) (h : AuditHistory A V) (event : AuditEvent (Mapping A)) : ∃ g r,
    exec env h (submit event : AuditCode A V Unit) = (h ++ g, r) ∧
      Hands (· = .event event) g (Py.swallowed r) := by
  rw [submit, exec_bind, exec_perform]
  simp only [exec_bind, exec_ofExcept]
  cases hb : env h .getDispatcher with
  | some exc => exact ⟨_, _, rfl, .lost ⟨_, List.mem_singleton.mpr rfl, by simp [Harmless]⟩ rfl⟩
  | none =>
    simp only [Py.raised, exec_perform, List.append_assoc]
    refine ⟨_, _, rfl, .of_handing ?_ rfl rfl Iff.rfl⟩
    simp [Harmless]

end ResilienceKit.Audit

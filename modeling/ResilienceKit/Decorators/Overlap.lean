import ResilienceKit.Lib.Pool
import ResilienceKit.Decorators.OneCall

/-!
# Decorators.Overlap — overlapping calls of one `resilient` function

The breaker is asked once, when a call comes in; the retry loop inside does not ask it again.  So a call
that is in its backoff when another call opens the breaker goes on, and that is the only way in which the
function starts while the breaker is OPEN (`open_starts_are_retries`).
-/

namespace ResilienceKit

open Program Code Py
open Retry
open Mealy (Timed)

/-- The breaker, and where every call waits. -/
abbrev Calls (V : Type) :=
  Pool.Sys InMemoryAsyncBreaker Ask (Answer (Option V)) (Except PyExc (Option V))

abbrev CallEvent (V : Type) := Timed ℚ (Pool.Ev Ask (Answer (Option V)))

/-- All calls of one `resilient` coroutine function on one in-memory breaker. -/
def overlappingCalls (cfg : BreakerConfig) (policy : RetryPolicy) (funcName : Option String) (V : Type) :
    Mealy (Calls V) (CallEvent V) (Pool.Out Ask (Answer (Option V))) :=
  Pool.machine (InMemoryAsyncBreaker.serve cfg)
    (ExceptT.run (resilient cfg policy funcName .async invoke)) {}

variable {V : Type}

/-- A step of the overlapping calls. -/
abbrev CallStep (V : Type) := Mealy.Step (Calls V) (CallEvent V) (Pool.Out Ask (Answer (Option V)))

/-- The step lets the call in, and its first invocation starts at once. -/
def LetIn (id : ℕ) (r : CallStep V) : Prop :=
  r.out = .resumed id ⟨.admission, true⟩ (some .invoke) ∧ r.post.shared.state ≠ .OPEN

/-- The step makes an invocation of the call start. -/
def Starts (id : ℕ) (r : CallStep V) : Prop := ∃ x, r.out = .resumed id x (some .invoke)

def startsNow (id : ℕ) : Pool.Out Ask (Answer (Option V)) → Bool
  | .resumed id' _ (some .invoke) => id' = id
  | _ => false

theorem startsNow_iff {id : ℕ} {r : CallStep V} : startsNow id r.out = true ↔ Starts id r := by
  constructor
  · intro h
    unfold startsNow at h
    split at h
    · rename_i id' x heq
      obtain rfl : id' = id := of_decide_eq_true h
      exact ⟨x, heq⟩
    · cases h
  · rintro ⟨x, hx⟩
    rw [hx]
    exact decide_eq_true rfl

instance (id : ℕ) (r : CallStep V) : Decidable (Starts id r) := decidable_of_iff _ startsNow_iff

/-! ### One call -/

section Shape

variable (cfg : BreakerConfig) {policy : RetryPolicy} (funcName : Option String)

/-- What follows the admission step. -/
def afterAdmission (policy : RetryPolicy) (admitted : Bool) : Py (Option V) (Option V) :=
  if admitted then
    tryElse (retryOnFailure policy funcName .async invoke)
      (fun exc => do
        if isinstance exc .cancelledError then throw exc
        else if catches cfg.excludedExceptions exc then throw exc
        else
          let _ ← perform Ask.recordFailure
          throw exc)
      (fun result => do
        let _ ← perform Ask.recordSuccess
        return result)
  else throw ⟨.serviceUnavailableError, 0⟩

theorem run_resilient (policy : RetryPolicy) :
    ExceptT.run (resilient cfg policy funcName .async (invoke : Py (Option V) (Option V))) =
      Program.ask Ask.admission fun admitted =>
        ExceptT.run (afterAdmission cfg funcName policy admitted) := rfl

/-- An admitted call begins with an invocation. -/
theorem first_afterAdmission (hmax : 1 ≤ policy.maxAttempts) :
    Pool.first (ExceptT.run (afterAdmission (V := V) cfg funcName policy true)) = some .invoke := by
  obtain ⟨m, hm⟩ : ∃ m : ℕ, policy.maxAttempts.toNat = m + 1 :=
    Nat.exists_eq_succ_of_ne_zero (by omega)
  rw [afterAdmission, if_pos rfl, retryOnFailure_eq, hm]
  rfl

/-- The breaker is not asked again. -/
theorem asks_afterAdmission :
    Program.Asks (· ≠ .admission)
      (ExceptT.run (afterAdmission (V := V) cfg funcName policy true)) := by
  have hretry : Asks (· ≠ .admission)
      (retryOnFailure policy funcName .async (invoke : Py (Option V) (Option V))) := by
    rw [retryOnFailure_eq]
    refine asks_attempts (fun q hq => ?_) (Mode.aside_sleep .async) ?_ _ _ _ _
    · rintro rfl
      cases hq
    · exact Asks.bind (Asks.perform (by decide)) fun o => asks_fromExcept _
  refine Asks.tryElse hretry (fun e => ?_) fun v => ?_
  · split_ifs
    · exact .throw e
    · exact .throw e
    · exact Asks.bind (Asks.perform (by decide)) fun _ => .throw e
  · exact Asks.bind (Asks.perform (by decide)) fun _ => .pure v

end Shape

/-- Where a call can be: before its admission, at its end, or past an admission that let it in. -/
def Placed (cfg : BreakerConfig) (policy : RetryPolicy) (funcName : Option String) (l : List (CallStep V))
    (id : ℕ) (p : Program Ask (Answer (Option V)) (Except PyExc (Option V))) : Prop :=
  p = ExceptT.run (resilient cfg policy funcName .async invoke) ∨ (∃ x, p = .done x) ∨
    p.Asks (· ≠ .admission) ∧ ∃ r ∈ l, LetIn id r

variable {cfg : BreakerConfig} {policy : RetryPolicy} {funcName : Option String}

/-- **Step lemma**: what a call comes to when its question is answered. -/
theorem Placed.step (hmax : 1 ≤ policy.maxAttempts) {l : List (CallStep V)} {r : CallStep V} {id : ℕ}
    {q : Ask} {next : Answer (Option V) q → Program Ask (Answer (Option V)) (Except PyExc (Option V))}
    {a₀ a : Answer (Option V) q} {shared : InMemoryAsyncBreaker}
    (hp : Placed cfg policy funcName l id (.ask q next))
    (hserve : InMemoryAsyncBreaker.serve cfg r.ev.time r.pre.shared q a₀ = (a, shared))
    (ho : r.out = .resumed id ⟨q, a⟩ (Pool.first (next a))) (hshared : r.post.shared = shared) :
    Placed cfg policy funcName (l ++ [r]) id (next a) := by
  rcases hp with hp | ⟨x, hx⟩ | ⟨hasks, r₁, hr₁, hin⟩
  · rw [run_resilient] at hp
    cases hp
    cases a with
    | false => exact .inr (.inl ⟨_, rfl⟩)
    | true =>
      refine .inr (.inr ⟨asks_afterAdmission cfg funcName, r, by simp, ?_, ?_⟩)
      · rw [ho, first_afterAdmission cfg funcName hmax]
      · obtain ⟨hadmitted, rfl⟩ := Prod.ext_iff.mp hserve
        rw [hshared]
        exact of_decide_eq_true hadmitted
  · cases hx
  · exact .inr (.inr ⟨hasks.2 a, r₁, List.mem_append_left _ hr₁, hin⟩)

/-- **Run lemma.** -/
theorem placed (hmax : 1 ≤ policy.maxAttempts) (es : List (CallEvent V))
    (id : ℕ) (p : Program Ask (Answer (Option V)) (Except PyExc (Option V)))
    (hp : ((overlappingCalls cfg policy funcName V).exec
      (overlappingCalls cfg policy funcName V).init es).threads id = some p) :
    Placed cfg policy funcName ((overlappingCalls cfg policy funcName V).log
      (overlappingCalls cfg policy funcName V).init es) id p := by
  refine Pool.thread_induct (I := Placed cfg policy funcName) (fun l r id p hI => ?_)
    (fun l id => .inl rfl) (fun l r id q next a₀ a shared hI hserve ho hshared =>
      hI.step hmax hserve ho hshared) es id p hp
  rcases hI with hp | hx | ⟨hasks, r₁, hr₁, hin⟩
  · exact .inl hp
  · exact .inr (.inl hx)
  · exact .inr (.inr ⟨hasks, r₁, List.mem_append_left _ hr₁, hin⟩)

/-! ### Invocations under an OPEN breaker -/

/-- The invocation that starts at the last step under an OPEN breaker belongs to a call that was let in
before, under a breaker that was not OPEN. -/
theorem letIn_before (hmax : 1 ≤ policy.maxAttempts)
    (es : List (CallEvent V)) (e : CallEvent V)
    {id : ℕ} (hstarts : Starts id ((overlappingCalls cfg policy funcName V).record
      ((overlappingCalls cfg policy funcName V).exec (overlappingCalls cfg policy funcName V).init es) e))
    (hopen : ((overlappingCalls cfg policy funcName V).next ((overlappingCalls cfg policy funcName V).exec
      (overlappingCalls cfg policy funcName V).init es) e).shared.state = .OPEN) :
    ∃ r ∈ (overlappingCalls cfg policy funcName V).log (overlappingCalls cfg policy funcName V).init es,
      LetIn id r := by
  obtain ⟨x, hout⟩ := hstarts
  cases Pool.moved (InMemoryAsyncBreaker.serve cfg)
    (ExceptT.run (resilient cfg policy funcName .async invoke)) {} ((overlappingCalls cfg policy funcName
      V).exec (overlappingCalls cfg policy funcName V).init es) e with
  | ignored ho h => cases ho.symm.trans hout
  | spawned id' hfree ho h => cases ho.symm.trans hout
  | resumed id' q next a₀ a shared hat hserve ho h =>
    obtain ⟨rfl, hx, hfirst⟩ := Pool.Out.resumed.inj (ho.symm.trans hout)
    rcases placed hmax es id' _ hat with hp | ⟨x', hx'⟩ | ⟨-, r, hr, hin⟩
    · exfalso
      rw [run_resilient] at hp
      cases hp
      cases a with
      | false => cases hfirst
      | true =>
        obtain ⟨hadmitted, rfl⟩ := Prod.ext_iff.mp hserve
        refine of_decide_eq_true hadmitted ?_
        rw [← hopen]
        exact congrArg (fun s : Calls V => s.shared.state) h.symm
    · cases hx'
    · exact ⟨r, hr, hin⟩

/-- In every interleaving: an invocation that starts while the breaker is OPEN is a later attempt of a
call whose first attempt started under a breaker that was not OPEN and has opened since. -/
theorem open_starts_are_retries (cfg : BreakerConfig) (policy : RetryPolicy) (funcName : Option String)
    (hmax : 1 ≤ policy.maxAttempts) (es : List (CallEvent V)) :
    let M := overlappingCalls cfg policy funcName V
    ∀ l r l', M.log M.init es = l ++ r :: l' → ∀ id, Starts id r → r.post.shared.state = .OPEN →
      ∃ l₁ r₁ l₂, l = l₁ ++ r₁ :: l₂ ∧ LetIn id r₁ ∧
        ∃ r₂ ∈ l₂ ++ [r], r₂.pre.shared.state ≠ .OPEN ∧ r₂.post.shared.state = .OPEN := by
  intro M l r l' hlog id hstarts hopen
  obtain ⟨es₁, e, es₂, -, rfl, rfl⟩ := Mealy.log_split hlog
  obtain ⟨r₁, hr₁, hin⟩ := letIn_before hmax es₁ e hstarts hopen
  obtain ⟨l₁, l₂, hl⟩ := List.append_of_mem hr₁
  obtain ⟨es₃, e₁, es₄, hes, rfl, rfl⟩ := Mealy.log_split hl
  refine ⟨_, _, l₂, hl, hin, ?_⟩
  have hl₂ : l₂ = M.log (M.next (M.exec M.init es₃) e₁) es₄ := by
    rw [hes, Mealy.log_append, Mealy.log_cons] at hl
    exact (List.cons.inj (List.append_cancel_left hl)).2.symm
  have hend : M.exec (M.next (M.exec M.init es₃) e₁) (es₄ ++ [e]) = M.next (M.exec M.init es₁) e := by
    rw [Mealy.exec_concat, hes, Mealy.exec_append, Mealy.exec_cons]
  have hlog₂ : l₂ ++ [M.record (M.exec M.init es₁) e] =
      M.log (M.next (M.exec M.init es₃) e₁) (es₄ ++ [e]) := by
    rw [Mealy.log_concat, hl₂, hes, Mealy.exec_append, Mealy.exec_cons]
  rw [hlog₂]
  refine Mealy.exists_step_of_change (P := fun s : Calls V => s.shared.state = .OPEN) hin.2 ?_
  rw [hend]
  exact hopen

/-- Two calls that both come in; while the first sleeps between its attempts, the second fails and opens
the breaker. -/
def tripDuringBackoff : List (CallEvent ℕ) :=
  let blip : (q : Ask) → Answer (Option ℕ) q := Outcome.alone (.raised ⟨.transientError, 0⟩)
  [⟨0, .spawn 1⟩, ⟨0, .resume 1 blip⟩, ⟨0, .spawn 2⟩, ⟨0, .resume 2 blip⟩,
    -- the first call fails, draws its jitter, counts the attempt and sleeps
    ⟨0, .resume 1 blip⟩, ⟨0, .resume 1 blip⟩, ⟨0, .resume 1 blip⟩,
    -- the second fails with what is not retried, and is recorded
    ⟨0, .resume 2 (Outcome.alone (.raised ⟨⟨.user 0, [.Exception]⟩, 1⟩))⟩, ⟨0, .resume 2 blip⟩]

/-- The sleep of the first call ends after one second, 29 before the breaker may be tried. -/
theorem starts_while_open :
    let cfg : BreakerConfig := { failMax := 1 }
    let policy : RetryPolicy := ⟨2, 1, 60, 2, "decorrelated", [.transientError]⟩
    let M := overlappingCalls cfg policy "fetch" ℕ
    ∃ es e, Mealy.Clocked (es ++ [e]) ∧ Starts 1 (M.record (M.exec M.init es) e) ∧
      (M.next (M.exec M.init es) e).shared.state = .OPEN ∧
      ∃ t, (M.next (M.exec M.init es) e).shared.openedAt = some t ∧
        e.time < t + cfg.resetTimeout := by
  intro cfg policy M
  refine ⟨tripDuringBackoff, ⟨1, .resume 1 (Outcome.alone (.returned none))⟩, ?_, ?_, ?_, 0, ?_, ?_⟩
  · decide +kernel
  · decide +kernel
  · decide +kernel
  · decide +kernel
  · show (1 : ℚ) < 0 + 30
    norm_num

/-- The second attempt of the first call there is such a retry. -/
theorem open_starts_are_retries_backoff :
    let cfg : BreakerConfig := { failMax := 1 }
    let policy : RetryPolicy := ⟨2, 1, 60, 2, "decorrelated", [.transientError]⟩
    let M := overlappingCalls cfg policy "fetch" ℕ
    ∃ l₁ r₁ l₂, M.log M.init tripDuringBackoff = l₁ ++ r₁ :: l₂ ∧ LetIn 1 r₁ := by
  intro cfg policy M
  have hlog : M.log M.init (tripDuringBackoff ++ [⟨1, .resume 1 (Outcome.alone (.returned none))⟩]) =
      M.log M.init tripDuringBackoff ++ M.record (M.exec M.init tripDuringBackoff)
        ⟨1, .resume 1 (Outcome.alone (.returned none))⟩ :: [] := Mealy.log_concat _ _ _ _
  obtain ⟨l₁, r₁, l₂, hl, hin, -⟩ := open_starts_are_retries cfg policy "fetch" (by decide)
    (tripDuringBackoff ++ [⟨1, .resume 1 (Outcome.alone (.returned none))⟩]) _ _ _ hlog 1 (by decide +kernel)
    (by decide +kernel)
  exact ⟨l₁, r₁, l₂, hl, hin⟩

end ResilienceKit

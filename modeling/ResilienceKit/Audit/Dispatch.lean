import Mathlib.Algebra.Order.Field.Rat
import ResilienceKit.Audit.AnyKeys
import ResilienceKit.Audit.Events
import ResilienceKit.Runtime

/-!
# Audit.Dispatch — sanitising and writing a batch

`FireAndForgetDispatcher._flush` sanitises all events of a batch and then hands them to the backend, with
retries and a fallback.  The list comprehension of `_flush` raises what the first bad event raises, so the
batch is lost as a whole: `neighbours_kept_iff` says when the good events of a batch are written.
-/

namespace ResilienceKit.Audit

open Program Code

/-- `Sanitizer.sanitize`, for payloads of type `P`. -/
abbrev Sanitizer (P : Type) := P → Except PyExc P

/-- What a flush asks of its surroundings; `none` stands for a call that returns. -/
inductive FlushAsk (P : Type)
  | writeMany (events : List (AuditEvent P))
  | random
  | sleep (delay : ℚ)
  | incr (name : String) (value : ℕ) (tags : List (String × String))
  | fallbackWriteMany (events : List (AuditEvent P))

@[reducible] def FlushAnswer (P : Type) : FlushAsk P → Type
  | .writeMany _ => Option PyExc
  | .random => ℚ
  | .sleep _ => Option PyExc
  | .incr _ _ _ => Option PyExc
  | .fallbackWriteMany _ => Option PyExc

/-- The answers of surroundings in which nothing fails. -/
def FlushAsk.calm {P : Type} : (q : FlushAsk P) → FlushAnswer P q
  | .writeMany _ => none
  | .random => 0
  | .sleep _ => none
  | .incr _ _ _ => none
  | .fallbackWriteMany _ => none

abbrev FlushCode (P α : Type) := Code (FlushAsk P) (FlushAnswer P) PyExc α

abbrev FlushHistory (P : Type) := List (Exchange (FlushAnswer P))

/-- The dispatcher as a flush sees it; the backend and the fallback are asked. -/
structure FireAndForgetDispatcher (P : Type) where
  backendName : String
  sanitizer : Sanitizer P

namespace FireAndForgetDispatcher

def BACKEND_MAX_ATTEMPTS : ℕ := 3
def BACKEND_BACKOFF_BASE_S : ℚ := 5 / 100
def BACKEND_BACKOFF_CAP_S : ℚ := 1

variable {P : Type}

def writeMany (events : List (AuditEvent P)) : FlushCode P Unit := do
  let r ← perform (FlushAsk.writeMany events)
  Code.ofExcept (Py.raised r)

def fallbackWriteMany (events : List (AuditEvent P)) : FlushCode P Unit := do
  let r ← perform (FlushAsk.fallbackWriteMany events)
  Code.ofExcept (Py.raised r)

def incr (name : String) (value : ℕ) (tags : List (String × String)) : FlushCode P Unit := do
  let r ← perform (FlushAsk.incr name value tags)
  Code.ofExcept (Py.raised r)

def sleep (delay : ℚ) : FlushCode P Unit := do
  let r ← perform (FlushAsk.sleep delay)
  Code.ofExcept (Py.raised r)

/-- `_backoff_s` -/
def backoffS (attempt : ℕ) : FlushCode P ℚ := do
  let base := min (BACKEND_BACKOFF_BASE_S * 2 ^ (attempt - 1)) BACKEND_BACKOFF_CAP_S
  let random : ℚ ← perform FlushAsk.random
  return base * (1 / 2 + random)

/-- `asyncio.sleep(self._backoff_s(attempt))` -/
def pause (attempt : ℕ) : FlushCode P Unit := do
  let delay ← backoffS attempt
  sleep delay

/-- The loop of `_write_with_retry` from `attempt` on, with so many attempts left; says whether the events
were written. -/
def attemptWrites (events : List (AuditEvent P)) : ℕ → ℕ → FlushCode P Bool
  | _, 0 => return false
  | attempt, left + 1 =>
    tryElse (writeMany events)
      (fun exc =>
        if isinstance exc .exception then do
          if attempt < BACKEND_MAX_ATTEMPTS then pause attempt
          attemptWrites events (attempt + 1) left
        else throw exc)
      (fun _ => return true)

variable (d : FireAndForgetDispatcher P)

/-- `_write_with_retry` -/
def writeWithRetry (events : List (AuditEvent P)) : FlushCode P Unit := do
  let written ← attemptWrites events 1 BACKEND_MAX_ATTEMPTS
  if written then return ()
  incr "audit.write_failed" events.length [("backend", d.backendName)]
  Py.logged (fallbackWriteMany events)

/-- `_sanitize_event` -/
def sanitizeEvent (event : AuditEvent P) : Except PyExc (AuditEvent P) := do
  let payload ← d.sanitizer event.payload
  let details ← d.sanitizer event.details
  return { event with payload, details }

/-- `_flush` -/
def flush (batch : List (AuditEvent P)) : FlushCode P Unit := do
  let sanitised ← Code.ofExcept (batch.mapM d.sanitizeEvent)
  d.writeWithRetry sanitised

/-! ### How a flush runs -/

/-- An attempt at which the backend raised an `Exception`. -/
def failed : Exchange (FlushAnswer P) → Bool
  | ⟨.writeMany _, some exc⟩ => isinstance exc .exception
  | _ => false

/-- What the attempts to write `events` can ask. -/
def Attempting (events : List (AuditEvent P)) (x : Exchange (FlushAnswer P)) : Prop :=
  match x.1 with
  | .writeMany evs => evs = events
  | .random => True
  | .sleep _ => True
  | .incr _ _ _ => False
  | .fallbackWriteMany _ => False

/-- What a run of the attempts leaves: they all failed exactly when the loop runs out. -/
structure Attempted (events : List (AuditEvent P)) (left : ℕ) (g : FlushHistory P)
    (r : Except PyExc Bool) : Prop where
  asks : ∀ x ∈ g, Attempting events x
  first : 0 < left → ∃ a, ⟨.writeMany events, a⟩ ∈ g
  failed_iff : g.countP failed = left ↔ r = .ok false
  failed_le : g.countP failed ≤ left

variable {env : Env (FlushAnswer P)} {events : List (AuditEvent P)}

@[simp] theorem exec_writeMany (h : FlushHistory P) : exec env h (writeMany events) =
    (h ++ [⟨.writeMany events, env h (.writeMany events)⟩], Py.raised (env h (.writeMany events))) := by
  rw [writeMany, exec_bind, exec_perform]
  exact exec_ofExcept _

@[simp] theorem exec_fallbackWriteMany (h : FlushHistory P) : exec env h (fallbackWriteMany events) =
    (h ++ [⟨.fallbackWriteMany events, env h (.fallbackWriteMany events)⟩],
      Py.raised (env h (.fallbackWriteMany events))) := by
  rw [fallbackWriteMany, exec_bind, exec_perform]
  exact exec_ofExcept _

@[simp] theorem exec_incr (h : FlushHistory P) (name : String) (value : ℕ)
    (tags : List (String × String)) : exec env h (incr name value tags : FlushCode P Unit) =
    (h ++ [⟨.incr name value tags, env h (.incr name value tags)⟩],
      Py.raised (env h (.incr name value tags))) := by
  rw [incr, exec_bind, exec_perform]
  exact exec_ofExcept _

@[simp] theorem exec_sleep (h : FlushHistory P) (delay : ℚ) :
    exec env h (sleep delay : FlushCode P Unit) =
      (h ++ [⟨.sleep delay, env h (.sleep delay)⟩], Py.raised (env h (.sleep delay))) := by
  rw [sleep, exec_bind, exec_perform]
  exact exec_ofExcept _

/-- A pause is a draw and a sleep, which may be cancelled. -/
theorem exec_pause (env : Env (FlushAnswer P)) (h : FlushHistory P) (attempt : ℕ) : ∃ u delay a,
    exec env h (pause attempt) = (h ++ [⟨.random, u⟩, ⟨.sleep delay, a⟩], Py.raised a) := by
  rw [pause, exec_bind, backoffS, exec_bind, exec_perform]
  simp only [exec_pure, exec_sleep, List.append_assoc, List.cons_append, List.nil_append]
  exact ⟨_, _, _, rfl⟩

/-- One attempt in front of what follows it. -/
theorem Attempted.cons {left : ℕ} {g : FlushHistory P} {r : Except PyExc Bool} {exc : PyExc}
    (pre : FlushHistory P) (h : Attempted events left g r) (hexc : isinstance exc .exception = true)
    (hpre : ∀ x ∈ pre, Attempting events x ∧ failed x = false) :
    Attempted events (left + 1) (⟨.writeMany events, some exc⟩ :: pre ++ g) r := by
  have hcount : (⟨.writeMany events, some exc⟩ :: pre ++ g : FlushHistory P).countP failed =
      g.countP failed + 1 := by
    have h0 : pre.countP failed = 0 := List.countP_eq_zero.mpr fun x hx => by simp [(hpre x hx).2]
    rw [List.cons_append, List.countP_cons_of_pos (by exact hexc), List.countP_append, h0, Nat.zero_add]
  refine ⟨fun x hx => ?_, fun _ => ⟨_, List.mem_cons_self⟩, ?_, ?_⟩
  · rcases List.mem_append.mp hx with hx | hx
    · rcases List.mem_cons.mp hx with rfl | hx
      · exact rfl
      · exact (hpre x hx).1
    · exact h.asks x hx
  · rw [hcount, Nat.add_right_cancel_iff]
    exact h.failed_iff
  · rw [hcount]
    exact Nat.succ_le_succ h.failed_le

/-- An attempt that ends the loop before it runs out. -/
theorem Attempted.last {left : ℕ} {g : FlushHistory P} {r : Except PyExc Bool} {a : Option PyExc}
    (hg : ∀ x ∈ g, Attempting events x ∧ failed x = false) (hr : r ≠ .ok false)
    (hleft : failed ⟨.writeMany events, a⟩ = true → 0 < left) :
    Attempted events (left + 1) (⟨.writeMany events, a⟩ :: g) r := by
  have hcount : (⟨.writeMany events, a⟩ :: g : FlushHistory P).countP failed < left + 1 := by
    have h0 : g.countP failed = 0 := List.countP_eq_zero.mpr fun x hx => by simp [(hg x hx).2]
    rw [List.countP_cons, h0]
    split_ifs with hf
    · have := hleft hf
      omega
    · omega
  refine ⟨fun x hx => ?_, fun _ => ⟨_, List.mem_cons_self⟩, iff_of_false hcount.ne hr, hcount.le⟩
  rcases List.mem_cons.mp hx with rfl | hx
  · exact rfl
  · exact (hg x hx).1

/-- **Run lemma** for the attempts. -/
theorem exec_attemptWrites (env : Env (FlushAnswer P)) (events : List (AuditEvent P)) (h : FlushHistory P)
    (attempt left : ℕ) (hsum : attempt + left = BACKEND_MAX_ATTEMPTS + 1) : ∃ g r,
    exec env h (attemptWrites events attempt left) = (h ++ g, r) ∧ Attempted events left g r := by
  induction left generalizing h attempt with
  | zero => exact ⟨[], _, by rw [List.append_nil]; rfl, by simp, by simp, by simp, by simp⟩
  | succ left ih =>
    rw [attemptWrites, exec_tryElse, exec_writeMany]
    cases ha : env h (.writeMany events) with
    | none => exact ⟨_, _, rfl, .last (by simp) (by simp) (by simp [failed])⟩
    | some exc =>
      simp only [Py.raised]
      by_cases hexc : isinstance exc .exception = true
      · rw [if_pos hexc]
        by_cases hlt : attempt < BACKEND_MAX_ATTEMPTS
        · obtain ⟨u, delay, a, hpause⟩ := exec_pause env
            (h ++ [⟨.writeMany events, some exc⟩]) attempt
          have hpre : ∀ x ∈ ([⟨.random, u⟩, ⟨.sleep delay, a⟩] : FlushHistory P),
              Attempting events x ∧ failed x = false := by
            simp [Attempting, failed]
          rw [if_pos hlt, exec_bind, hpause]
          cases a with
          | some exc' =>
            refine ⟨_, _, by rw [List.append_assoc]; rfl, .last hpre (by simp) fun _ => ?_⟩
            omega
          | none =>
            obtain ⟨g, r, hrun, hg⟩ := ih (h ++ [⟨.writeMany events, some exc⟩] ++
              [⟨.random, u⟩, ⟨.sleep delay, none⟩]) (attempt + 1) (by omega)
            refine ⟨_, r, ?_, hg.cons _ hexc hpre⟩
            change exec env _ (attemptWrites events (attempt + 1) left) = _
            rw [hrun, List.append_assoc, List.append_assoc]
            rfl
        · obtain ⟨g, r, hrun, hg⟩ := ih (h ++ [⟨.writeMany events, some exc⟩]) (attempt + 1) (by omega)
          rw [if_neg hlt]
          exact ⟨_, r, by rw [hrun, List.append_assoc], hg.cons [] hexc (by simp)⟩
      · rw [if_neg hexc]
        refine ⟨_, _, rfl, .last (by simp) (by simp) fun hf => ?_⟩
        exact absurd hf hexc

/-- The sink never raises when the flush counts a lost write. -/
def SinkQuiet (h : FlushHistory P) : Prop :=
  ∀ name value tags a, ⟨.incr name value tags, a⟩ ∈ h → a = none

/-- What a write with retries leaves. -/
structure Written (events : List (AuditEvent P)) (h : FlushHistory P) : Prop where
  backend : ∃ a, ⟨.writeMany events, a⟩ ∈ h
  fallback : h.countP failed = BACKEND_MAX_ATTEMPTS → SinkQuiet h → ∃ a, ⟨.fallbackWriteMany events, a⟩ ∈ h
  quiet : (∃ events' a, ⟨.fallbackWriteMany events', a⟩ ∈ h) → SinkQuiet h
  uncounted : h.countP failed ≠ BACKEND_MAX_ATTEMPTS → SinkQuiet h

/-- The attempts alone count nothing. -/
theorem Attempted.sinkQuiet {left : ℕ} {g : FlushHistory P} {r : Except PyExc Bool}
    (h : Attempted events left g r) : SinkQuiet g :=
  fun _ _ _ _ hx => (h.asks _ hx).elim

/-- A write that ends in an attempt. -/
theorem Attempted.written {g : FlushHistory P} {r : Except PyExc Bool}
    (h : Attempted events BACKEND_MAX_ATTEMPTS g r) (hr : r ≠ .ok false) : Written events g :=
  ⟨h.first (by decide), fun hc => absurd (h.failed_iff.mp hc) hr, fun _ => h.sinkQuiet,
    fun _ => h.sinkQuiet⟩

theorem exec_writeWithRetry (env : Env (FlushAnswer P)) (events : List (AuditEvent P)) :
    Written events (exec env [] (d.writeWithRetry events)).1 := by
  obtain ⟨g, r, hrun, hg⟩ := exec_attemptWrites env events [] 1
    BACKEND_MAX_ATTEMPTS rfl
  rw [writeWithRetry, exec_bind, hrun, List.nil_append]
  match r, hg with
  | .error e, hg => exact hg.written (by simp)
  | .ok true, hg => exact hg.written (by simp)
  | .ok false, hg =>
    have hall : g.countP failed = BACKEND_MAX_ATTEMPTS := hg.failed_iff.mpr rfl
    simp only [Bool.false_eq_true, if_false]
    rw [exec_bind, exec_incr]
    obtain ⟨a, ha⟩ := hg.first (by decide)
    -- the sink decides whether the fallback is reached
    cases hq : env g (.incr "audit.write_failed" events.length [("backend", d.backendName)]) with
    | some exc =>
      have hnot : ¬ SinkQuiet (g ++ [⟨.incr "audit.write_failed" events.length
          [("backend", d.backendName)], some exc⟩] : FlushHistory P) := fun h => by
        cases h _ _ _ _ (List.mem_append_right g (List.mem_singleton.mpr rfl))
      refine ⟨⟨a, List.mem_append_left _ ha⟩, fun _ hquiet => absurd hquiet hnot, ?_, fun hc => ?_⟩
      · rintro ⟨events', b, hb⟩
        rcases List.mem_append.mp hb with hb | hb
        · exact (hg.asks _ hb).elim
        · cases List.mem_singleton.mp hb
      · refine absurd ?_ hc
        rw [Py.raised, List.countP_append, hall]
        rfl
    | none =>
      simp only [Py.raised]
      rw [Py.exec_logged, exec_fallbackWriteMany]
      have hquiet : ∀ c, SinkQuiet (g ++ [⟨.incr "audit.write_failed" events.length
          [("backend", d.backendName)], none⟩] ++ [⟨.fallbackWriteMany events, c⟩] :
            FlushHistory P) := by
        intro c name value tags b hb
        rcases List.mem_append.mp hb with hb | hb
        · rcases List.mem_append.mp hb with hb | hb
          · exact (hg.asks _ hb).elim
          · cases List.mem_singleton.mp hb
            rfl
        · cases List.mem_singleton.mp hb
      refine ⟨⟨a, ?_⟩, fun _ _ => ⟨_, List.mem_append_right _ (List.mem_singleton.mpr rfl)⟩,
        fun _ => hquiet _, fun _ => hquiet _⟩
      exact List.mem_append_left _ (List.mem_append_left _ ha)

/-- Events that sanitise are handed to the backend, in order, and to the fallback when every attempt
fails. -/
structure Kept (batch : List (AuditEvent P)) (h : FlushHistory P) : Prop where
  backend : Traverse.survivors d.sanitizeEvent batch ≠ [] → ∃ events a, ⟨.writeMany events, a⟩ ∈ h ∧
    (Traverse.survivors d.sanitizeEvent batch).Sublist events
  fallback : Traverse.survivors d.sanitizeEvent batch ≠ [] → h.countP failed = BACKEND_MAX_ATTEMPTS →
    ∃ events a, ⟨.fallbackWriteMany events, a⟩ ∈ h ∧
      (Traverse.survivors d.sanitizeEvent batch).Sublist events

/-- **One bad event loses its neighbours**: the events of a batch that sanitise are written exactly when all
of the batch sanitise, and the sink lets the flush count the lost writes. -/
theorem neighbours_kept_iff (env : Env (FlushAnswer P)) (batch : List (AuditEvent P)) :
    d.Kept batch (exec env [] (d.flush batch)).1 ↔
      (∀ event ∈ batch, ∃ exc, d.sanitizeEvent event = .error exc) ∨
        ((∀ event ∈ batch, ∃ event', d.sanitizeEvent event = .ok event') ∧
          SinkQuiet (exec env [] (d.flush batch)).1) := by
  rw [← Traverse.survivors_eq_nil_iff, ← Traverse.mapM_isOk_iff, flush, exec_bind, exec_ofExcept]
  cases hb : batch.mapM d.sanitizeEvent with
  | error exc =>
    constructor
    · intro h
      by_contra hne
      obtain ⟨events, a, hmem, -⟩ := h.backend fun h0 => hne (.inl h0)
      cases hmem
    · rintro (h0 | ⟨⟨events, he⟩, -⟩)
      · exact ⟨fun hne => absurd h0 hne, fun hne => absurd h0 hne⟩
      · cases he
  | ok events =>
    have hw := d.exec_writeWithRetry env events
    have hs := Traverse.survivors_of_mapM hb
    constructor
    · intro h
      refine or_iff_not_imp_left.mpr fun hne => ⟨⟨events, rfl⟩, ?_⟩
      by_cases hc : (exec env [] (d.writeWithRetry events)).1.countP failed = BACKEND_MAX_ATTEMPTS
      · obtain ⟨events', a, hmem, -⟩ := h.fallback hne hc
        exact hw.quiet ⟨events', a, hmem⟩
      · exact hw.uncounted hc
    · rintro (h0 | ⟨-, hquiet⟩)
      · exact ⟨fun hne => absurd h0 hne, fun hne => absurd h0 hne⟩
      · refine ⟨fun _ => ?_, fun _ hc => ?_⟩
        · obtain ⟨a, ha⟩ := hw.backend
          exact ⟨events, a, ha, hs ▸ List.Sublist.refl _⟩
        · obtain ⟨a, ha⟩ := hw.fallback hc hquiet
          exact ⟨events, a, ha, hs ▸ List.Sublist.refl _⟩

/-! ### The default redactor -/

theorem sanitizeEvent_isOk_iff {event : AuditEvent P} : (∃ event', d.sanitizeEvent event = .ok event') ↔
    (∃ payload, d.sanitizer event.payload = .ok payload) ∧
      ∃ details, d.sanitizer event.details = .ok details := by
  unfold sanitizeEvent
  cases d.sanitizer event.payload with
  | error exc => exact iff_of_false (Traverse.not_isOk_error exc) fun h => Traverse.not_isOk_error exc h.1
  | ok payload =>
    cases d.sanitizer event.details with
    | error exc => exact iff_of_false (Traverse.not_isOk_error exc) fun h => Traverse.not_isOk_error exc h.2
    | ok details => exact iff_of_true ⟨_, rfl⟩ ⟨⟨payload, rfl⟩, details, rfl⟩

/-- With the default redactor an event sanitises exactly when the walk gets through its payload and its
details. -/
theorem sanitizeEvent_isOk_iff_walkable {K L S : Type} {ops : KeyOps K L} {r : DefaultRedactor} {room : ℕ}
    {name : String} {event : AuditEvent (List (K × Tree K S))} :
    (∃ event', sanitizeEvent ⟨name, r.sanitize? ops room⟩ event = .ok event') ↔
      r.Walkable ops (room + 1) (.dict event.payload) ∧ r.Walkable ops (room + 1) (.dict event.details) := by
  rw [sanitizeEvent_isOk_iff, DefaultRedactor.sanitize?_isOk_iff, DefaultRedactor.sanitize?_isOk_iff]

/-- An event of a call with these arguments. -/
def called (items : List (Key ℤ × Tree (Key ℤ) Unit)) : AuditEvent (List (Key ℤ × Tree (Key ℤ) Unit)) where
  direction := .inbound
  service := "billing"
  method := "call"
  path := "charge"
  outcome := .success
  latencyMs := 1
  payload := items
  details := []
  timestamp := 0

/-- The dispatcher with the default redactor. -/
def standard : FireAndForgetDispatcher (List (Key ℤ × Tree (Key ℤ) Unit)) where
  backendName := "PostgresAuditBackend"
  sanitizer := (DefaultRedactor.init String.toLower none).sanitize? (Key.ops String.toLower id ℤ) 900

/-- A payload with the key `7` keeps an event with the key `"user"` from a backend that never fails. -/
theorem int_key_loses_neighbour : ¬ standard.Kept
    [called [(.str "user", .text "alice")], called [(.other 7, .text "seven")]]
      (exec (fun _ => FlushAsk.calm) []
        (standard.flush [called [(.str "user", .text "alice")], called [(.other 7, .text "seven")]])).1 := by
  intro h
  obtain ⟨events, a, hmem, -⟩ := h.backend (by decide +kernel)
  have hnone : (exec (fun _ => FlushAsk.calm) [] (standard.flush
      [called [(.str "user", .text "alice")], called [(.other 7, .text "seven")]])).1.length = 0 := by
    decide +kernel
  rw [List.eq_nil_of_length_eq_zero hnone] at hmem
  cases hmem

end FireAndForgetDispatcher

end ResilienceKit.Audit

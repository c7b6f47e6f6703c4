import Mathlib.Algebra.Order.Ring.Int
import ResilienceKit.Middleware.Layers

/-!
# Middleware.BodyLimit — what an application receives under the body limit

`capped_receive` replaces events one by one.  `capEvents` is what comes of a whole sequence of them, and
`body_limited` says it of every run of every application.
-/

namespace ResilienceKit.Middleware

open Program Code

variable {X Y : Type}

/-- The bytes that an event brings. -/
def Event.bytes : Event → ℕ
  | .request body _ => (body.getD []).length
  | .disconnect => 0
  | .other _ _ => 0

def totalBytes (events : List Event) : ℕ := (events.map Event.bytes).sum

def AsgiAsk.isReceive : AsgiAsk X → Bool
  | .receive => true
  | _ => false

/-- The events of a history. -/
def received (h : AsgiHistory X Y) : List Event :=
  h.filterMap fun
    | ⟨.receive, .ok event⟩ => some event
    | _ => none

/-- Everything else in a history. -/
def unreceived (h : AsgiHistory X Y) : AsgiHistory X Y := h.filter fun x => !x.1.isReceive

/-! ### Sequences of events -/

/-- What becomes of an event, where `seen` counts its bytes. -/
def capEvent (max : ℤ) (seen : ℕ) : Event → Event
  | .request body moreBody => if max < seen then .disconnect else .request body moreBody
  | .disconnect => .disconnect
  | .other type items => .other type items

def capEvents (max : ℤ) : ℕ → List Event → List Event
  | _, [] => []
  | seen, e :: events => capEvent max (seen + e.bytes) e :: capEvents max (seen + e.bytes) events

variable {max : ℤ} {seen : ℕ}

theorem capped_ok (e : Event) :
    capped max seen (.ok e) = (.ok (capEvent max (seen + e.bytes) e), seen + e.bytes) := by
  cases e with
  | request body moreBody =>
    by_cases hover : max < ((seen + (Event.request body moreBody).bytes : ℕ) : ℤ)
    · rw [capEvent, if_pos hover]
      exact if_pos hover
    · rw [capEvent, if_neg hover]
      exact if_neg hover
  | disconnect => rfl
  | other type items => rfl

theorem bytes_capEvent (e : Event) : (capEvent max seen e).bytes = if max < seen then 0 else e.bytes := by
  cases e with
  | request body moreBody =>
    unfold capEvent
    split_ifs <;> rfl
  | disconnect => exact (ite_self 0).symm
  | other type items => exact (ite_self 0).symm

theorem capEvent_of_le (h : (seen : ℤ) ≤ max) (e : Event) : capEvent max seen e = e := by
  cases e with
  | request body moreBody => exact if_neg (by omega)
  | disconnect => rfl
  | other type items => rfl

/-- No sequence of events brings more bytes than are left. -/
theorem totalBytes_capEvents (events : List Event) :
    (totalBytes (capEvents max seen events) : ℤ) ≤ (max - seen) ⊔ 0 := by
  induction events generalizing seen with
  | nil => simp [totalBytes, capEvents]
  | cons e events ih =>
    have hrest : (totalBytes (capEvents max (seen + e.bytes) events) : ℤ) ≤ (max - (seen + e.bytes : ℕ)) ⊔ 0 := ih
    simp only [totalBytes, capEvents, List.map_cons, List.sum_cons, bytes_capEvent] at hrest ⊢
    push_cast at hrest ⊢
    split_ifs with hover
    · omega
    · omega

/-- Each event by itself. -/
theorem getElem?_capEvents (events : List Event) (i : ℕ) : (capEvents max seen events)[i]? =
    events[i]?.map (capEvent max (seen + totalBytes (events.take (i + 1)))) := by
  induction events generalizing seen i with
  | nil => rfl
  | cons e events ih =>
    cases i with
    | zero => simp [capEvents, totalBytes]
    | succ i => simp [capEvents, ih, totalBytes, Nat.add_assoc]

/-! ### Runs -/

theorem received_told (log : AsgiHistory X Y) :
    received (told (cappedBack max) seen log) = capEvents max seen (received log) := by
  induction log generalizing seen with
  | nil => rfl
  | cons x log ih =>
    obtain ⟨q, a⟩ := x
    cases q with
    | receive =>
      cases a with
      | error exc => exact ih
      | ok e =>
        rw [told]
        simp only [cappedBack, capped_ok]
        exact congrArg _ ih
    | send message => exact ih
    | newRequestId => exact ih
    | aside x => exact ih

theorem unreceived_told (log : AsgiHistory X Y) :
    unreceived (told (cappedBack max) seen log) = unreceived log := by
  induction log generalizing seen with
  | nil => rfl
  | cons x log ih =>
    obtain ⟨q, a⟩ := x
    cases q with
    | receive => exact ih
    | send message => exact congrArg (⟨.send message, a⟩ :: ·) ih
    | newRequestId => exact congrArg (⟨.newRequestId, a⟩ :: ·) ih
    | aside x => exact congrArg (⟨.aside x, a⟩ :: ·) ih

/-- Nothing changes while the limit is not passed. -/
theorem told_of_le (log : AsgiHistory X Y) (h : (seen + totalBytes (received log) : ℤ) ≤ max) :
    told (cappedBack max) seen log = log := by
  induction log generalizing seen with
  | nil => rfl
  | cons x log ih =>
    obtain ⟨q, a⟩ := x
    cases q with
    | receive =>
      cases a with
      | error exc => exact congrArg _ (ih h)
      | ok e =>
        have hsum : totalBytes (received (⟨.receive, .ok e⟩ :: log : AsgiHistory X Y)) =
            e.bytes + totalBytes (received log) := rfl
        rw [hsum] at h
        push_cast at h
        rw [told]
        simp only [cappedBack, capped_ok]
        rw [capEvent_of_le (by push_cast; omega), ih (by push_cast; omega)]
    | send message => exact congrArg _ (ih h)
    | newRequestId => exact congrArg _ (ih h)
    | aside x => exact congrArg _ (ih h)

/-- An answer of a layer is sent until the server refuses a message. -/
theorem runs_reply {reply : Reply} {log : AsgiHistory X Y} {r : Except PyExc Unit} (h : Runs reply.send log r) :
    (sent log <+: [.start reply.status reply.headers, .body reply.body false]) ∧
      (r = .ok () → sent log = [.start reply.status reply.headers, .body reply.body false]) := by
  obtain ⟨a, rest, rfl, hrest⟩ := h
  cases a with
  | some exc =>
    obtain ⟨rfl, rfl⟩ := hrest
    exact ⟨⟨_, rfl⟩, nofun⟩
  | none =>
    obtain ⟨b, rest, rfl, hrest⟩ := hrest
    cases b <;> obtain ⟨rfl, rfl⟩ := hrest <;> exact ⟨⟨[], rfl⟩, fun _ => rfl⟩

theorem bodyLimitMiddleware_http {app : App X Y} {scope : Scope} (hscope : scope.type = "http") :
    bodyLimitMiddleware max app scope =
      if tooLarge max scope then reply413.send else relay (fun _ q => q) (cappedBack max) 0 (app scope) :=
  if_neg (not_not.mpr hscope)

/-- **The body limit is a hard cap and otherwise transparent.**  A request that declares too much is answered
413 and the application is not called.  Any other run is a run of the application, which is told everything
but the events that bring more bytes than allowed. -/
theorem body_limited (max : ℤ) (hmax : 0 ≤ max) (app : App X Y) (scope : Scope) (hscope : scope.type = "http") :
    (tooLarge max scope = true → bodyLimitMiddleware max app scope = reply413.send ∧
      ∀ log r, Runs (bodyLimitMiddleware max app scope) log r →
        (sent log <+: [.start reply413.status reply413.headers, .body reply413.body false]) ∧
        (r = .ok () → sent log = [.start reply413.status reply413.headers, .body reply413.body false])) ∧
    (tooLarge max scope = false → ∀ log r, Runs (bodyLimitMiddleware max app scope) log r →
      ∃ inner, Runs (app scope) inner r ∧ unreceived inner = unreceived log ∧
        totalBytes (received inner) ≤ max ∧
        (∀ i body moreBody, (received log)[i]? = some (.request body moreBody) →
          max < totalBytes ((received log).take (i + 1)) → (received inner)[i]? = some .disconnect) ∧
        (totalBytes (received log) ≤ max → inner = log)) := by
  constructor
  · intro hlarge
    rw [bodyLimitMiddleware_http hscope, if_pos hlarge]
    exact ⟨rfl, fun log r => runs_reply⟩
  · intro hlarge log r hruns
    rw [bodyLimitMiddleware_http hscope, hlarge, if_neg Bool.false_ne_true, runs_relay] at hruns
    refine ⟨told (cappedBack max) 0 log, hruns, unreceived_told log, ?_, ?_, ?_⟩
    · rw [received_told]
      refine (totalBytes_capEvents _).trans (le_of_eq ?_)
      rw [Nat.cast_zero, sub_zero, sup_of_le_left hmax]
    · intro i body moreBody hi hover
      rw [received_told, getElem?_capEvents, hi, Option.map_some, zero_add]
      exact congrArg some (if_pos hover)
    · intro hle
      exact told_of_le log (by rwa [Nat.cast_zero, zero_add])

/-- An application that reads on, whatever it is told. -/
def readsTwice : App Unit Unit := fun _ => do
  let _ ← attempt (perform AsgiAsk.receive)
  let _ ← attempt (perform AsgiAsk.receive)

/-- Three bytes come, and two more that are over the limit. -/
def fiveBytes : AsgiHistory Unit Unit :=
  [⟨.receive, .ok (.request (some [1, 2, 3]) (some true))⟩, ⟨.receive, .ok (.request (some [4, 5]) none)⟩]

/-- The declared length says nothing. -/
def upload : Scope := ⟨"http", some "POST", "/upload", [("Content-Length", "-1")]⟩

theorem body_limited_four : ∃ inner, Runs (readsTwice upload) inner (.ok ()) ∧
    totalBytes (received inner) ≤ (4 : ℤ) ∧ (received inner)[1]? = some .disconnect := by
  have hsmall : tooLarge 4 upload = false := by decide +kernel
  have hruns : Runs (bodyLimitMiddleware 4 readsTwice upload) fiveBytes (.ok ()) := by
    rw [bodyLimitMiddleware_http rfl, hsmall]
    exact ⟨_, _, rfl, _, _, rfl, rfl, rfl⟩
  obtain ⟨inner, hinner, -, hle, hover, -⟩ :=
    (body_limited 4 (by decide) readsTwice upload rfl).2 hsmall fiveBytes (.ok ()) hruns
  exact ⟨inner, hinner, hle, hover 1 (some [4, 5]) none rfl (by decide)⟩

end ResilienceKit.Middleware

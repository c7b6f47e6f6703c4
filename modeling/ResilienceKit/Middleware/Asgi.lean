import ResilienceKit.Lib.Relay
import ResilienceKit.Runtime

/-!
# Middleware.Asgi — applications and the response protocol

An ASGI application is code that receives events and sends messages, and asks whatever else it likes.  The
names and values of headers are byte strings, written as Latin-1 text.

`Legal` is the protocol of an HTTP response; `legal_iff` says that a machine with three phases accepts it.
-/

namespace ResilienceKit.Middleware

open Program Code

abbrev Headers := List (String × String)

inductive Message
  | start (status : ℕ) (headers : Headers)
  | body (body : List UInt8) (moreBody : Bool)
  deriving DecidableEq, Repr

/-- What `receive` hands to the application.  Keys of an `http.request` may be missing; `other` is any other
message, also one of that type with a body that is no byte string. -/
inductive Event
  | request (body : Option (List UInt8)) (moreBody : Option Bool)
  | disconnect
  | other (type : String) (items : List (String × String))
  deriving DecidableEq, Repr

/-- `aside` is what the application asks of anything but the server. -/
inductive AsgiAsk (X : Type)
  | receive
  | send (message : Message)
  | newRequestId
  | aside (x : X)

@[reducible] def AsgiAnswer (X Y : Type) : AsgiAsk X → Type
  | .receive => Except PyExc Event
  | .send _ => Option PyExc
  | .newRequestId => String
  | .aside _ => Y

abbrev AsgiCode (X Y α : Type) := Code (AsgiAsk X) (AsgiAnswer X Y) PyExc α

abbrev AsgiHistory (X Y : Type) := List (Exchange (AsgiAnswer X Y))

structure Scope where
  type : String
  method : Option String
  path : String
  headers : Headers
  deriving DecidableEq, Repr

abbrev App (X Y : Type) := Scope → AsgiCode X Y Unit

variable {X Y : Type}

/-- `await send(message)` -/
def send (message : Message) : AsgiCode X Y Unit := do
  let r ← perform (AsgiAsk.send message)
  Code.ofExcept (Py.raised r)

/-- The message that a question sends. -/
def AsgiAsk.message? : AsgiAsk X → Option Message
  | .send message => some message
  | _ => none

/-- The messages that were sent. -/
abbrev sent (h : AsgiHistory X Y) : List Message := seen AsgiAsk.message? h

@[simp] theorem exec_send (env : Env (AsgiAnswer X Y)) (h : AsgiHistory X Y) (message : Message) :
    exec env h (send message) =
      (h ++ [⟨.send message, env h (.send message)⟩], Py.raised (env h (.send message))) := by
  rw [send, exec_bind, exec_perform]
  exact exec_ofExcept _

@[simp] theorem sent_concat (h : AsgiHistory X Y) (message : Message) (a : Option PyExc) :
    sent (h ++ [⟨.send message, a⟩]) = sent h ++ [message] := by
  rw [sent, seen_append]
  rfl

/-! ### The response protocol -/

def Message.isStart : Message → Bool
  | .start _ _ => true
  | .body _ _ => false

def Message.isLast : Message → Bool
  | .start _ _ => false
  | .body _ moreBody => !moreBody

/-- At most one start, no body message before it, and nothing after a last body message. -/
structure Legal (ms : List Message) : Prop where
  once : ms.countP Message.isStart ≤ 1
  begins : ∀ pre m post, ms = pre ++ m :: post → m.isStart = false → ∃ s ∈ pre, s.isStart = true
  ends : ∀ pre m post, ms = pre ++ m :: post → m.isLast = true → post = []

inductive Phase
  | fresh | streaming | finished
  deriving DecidableEq, Repr

def Phase.step : Phase → Message → Option Phase
  | .fresh, .start _ _ => some .streaming
  | .streaming, .body _ true => some .streaming
  | .streaming, .body _ false => some .finished
  | _, _ => none

/-- The phase after the messages, if they keep to the protocol. -/
def phase? (ms : List Message) : Option Phase := ms.foldlM Phase.step .fresh

theorem phase?_concat (ms : List Message) (m : Message) :
    phase? (ms ++ [m]) = (phase? ms).bind fun p => p.step m := by
  rw [phase?, List.foldlM_append]
  cases h : ms.foldlM Phase.step .fresh with
  | none => simp [phase?, h]
  | some p => simp [phase?, h]

theorem Phase.step_eq_some_iff {p : Phase} {m : Message} : (∃ p', p.step m = some p') ↔
    (m.isStart = true ∧ p = .fresh) ∨ (m.isStart = false ∧ p = .streaming) := by
  cases m with
  | start status headers => cases p <;> simp [Phase.step, Message.isStart]
  | body body moreBody => cases p <;> cases moreBody <;> simp [Phase.step, Message.isStart]

/-- What has been sent can be read off the phase. -/
theorem phase?_spec {ms : List Message} {p : Phase} (h : phase? ms = some p) :
    ((∃ x ∈ ms, x.isStart = true) ↔ p ≠ .fresh) ∧ ((∃ x ∈ ms, x.isLast = true) ↔ p = .finished) := by
  induction ms using List.reverseRecOn generalizing p with
  | nil =>
    obtain rfl : Phase.fresh = p := Option.some.inj h
    simp
  | append_singleton ms m ih =>
    rw [phase?_concat, Option.bind_eq_some_iff] at h
    obtain ⟨q, hq, hstep⟩ := h
    obtain ⟨hstart, hlast⟩ := ih hq
    simp only [List.mem_append, List.mem_singleton, or_and_right, exists_or, exists_eq_left, hstart, hlast]
    cases m with
    | start status headers =>
      cases q <;> cases hstep
      simp [Message.isStart, Message.isLast]
    | body body moreBody =>
      cases q <;> cases moreBody <;> cases hstep <;> simp [Message.isStart, Message.isLast]

theorem legal_nil : Legal [] := ⟨by simp, by simp, by simp⟩

/-- What a further message has to keep to. -/
theorem legal_concat {ms : List Message} {m : Message} : Legal (ms ++ [m]) ↔
    Legal ms ∧ (m.isStart = true ↔ ¬ ∃ x ∈ ms, x.isStart = true) ∧ ¬ ∃ x ∈ ms, x.isLast = true := by
  constructor
  · intro h
    refine ⟨⟨?_, fun pre x post he hx => ?_, fun pre x post he hx => ?_⟩, ⟨fun hm => ?_, fun hno => ?_⟩, ?_⟩
    · refine le_trans ?_ h.once
      rw [List.countP_append]
      exact Nat.le_add_right _ _
    · exact h.begins pre x (post ++ [m]) (by rw [he]; simp) hx
    · have hpost := h.ends pre x (post ++ [m]) (by rw [he]; simp) hx
      simp at hpost
    · rintro ⟨x, hx, hs⟩
      have hpos : 0 < ms.countP Message.isStart := List.countP_pos_iff.mpr ⟨x, hx, hs⟩
      have honce := h.once
      rw [List.countP_append, List.countP_singleton, if_pos hm] at honce
      omega
    · by_contra hm
      obtain ⟨s, hs, hstart⟩ := h.begins ms m [] rfl (by simpa using hm)
      exact hno ⟨s, hs, hstart⟩
    · rintro ⟨x, hx, hlast⟩
      obtain ⟨pre, post, rfl⟩ := List.append_of_mem hx
      have hpost := h.ends pre x (post ++ [m]) (by simp) hlast
      simp at hpost
  · rintro ⟨h, hstart, hlast⟩
    refine ⟨?_, fun pre x post he hx => ?_, fun pre x post he hx => ?_⟩
    · rw [List.countP_append, List.countP_singleton]
      split_ifs with hm
      · have hzero : ms.countP Message.isStart = 0 := List.countP_eq_zero.mpr fun x hx hs =>
          hstart.mp hm ⟨x, hx, hs⟩
        omega
      · exact h.once
    · rcases List.eq_nil_or_concat post with rfl | ⟨post', y, rfl⟩
      · obtain ⟨rfl, rfl⟩ := List.append_singleton_inj.mp he
        by_contra hno
        exact absurd (hstart.mpr hno) (by simp [hx])
      · have he' : ms ++ [m] = (pre ++ x :: post') ++ [y] := by rw [he]; simp
        obtain ⟨rfl, rfl⟩ := List.append_singleton_inj.mp he'
        exact h.begins pre x post' rfl hx
    · rcases List.eq_nil_or_concat post with rfl | ⟨post', y, rfl⟩
      · rfl
      · have he' : ms ++ [m] = (pre ++ x :: post') ++ [y] := by rw [he]; simp
        obtain ⟨rfl, rfl⟩ := List.append_singleton_inj.mp he'
        exact absurd ⟨x, by simp, hx⟩ hlast

/-- The machine accepts exactly the legal message lists. -/
theorem legal_iff {ms : List Message} : Legal ms ↔ ∃ p, phase? ms = some p := by
  induction ms using List.reverseRecOn with
  | nil => exact iff_of_true legal_nil ⟨.fresh, rfl⟩
  | append_singleton ms m ih =>
    rw [legal_concat, ih, phase?_concat]
    cases hp : phase? ms with
    | none => simp
    | some p =>
      obtain ⟨hstart, hlast⟩ := phase?_spec hp
      rw [hstart, hlast, Option.bind_some, Phase.step_eq_some_iff]
      cases m.isStart <;> cases p <;> simp

theorem Legal.of_append {ms rest : List Message} (h : Legal (ms ++ rest)) : Legal ms := by
  induction rest using List.reverseRecOn with
  | nil => rwa [List.append_nil] at h
  | append_singleton rest m ih =>
    rw [← List.append_assoc] at h
    exact ih (legal_concat.mp h).1

/-- An answer keeps to the protocol exactly if nothing was sent before it. -/
theorem legal_answer_iff {ms rest : List Message} {status : ℕ} {headers : Headers}
    (hrest : Legal (.start status headers :: rest)) : Legal (ms ++ .start status headers :: rest) ↔ ms = [] := by
  constructor
  · intro h
    rw [List.append_cons] at h
    obtain ⟨-, hstart, -⟩ := legal_concat.mp h.of_append
    cases ms with
    | nil => rfl
    | cons m ms =>
      cases hm : m.isStart with
      | true => exact absurd ⟨m, List.mem_cons_self, hm⟩ (hstart.mp rfl)
      | false =>
        obtain ⟨s, hs, -⟩ := h.begins [] m _ rfl hm
        cases hs
  · rintro rfl
    exact hrest

end ResilienceKit.Middleware

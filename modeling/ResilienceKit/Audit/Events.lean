import Mathlib.Data.Rat.Defs

/-!
# Audit.Events — the audit record

One record for each request or response, inbound or outbound; `P` has the payloads.
-/

namespace ResilienceKit.Audit

inductive Direction
  | inbound | outbound
  deriving DecidableEq, Repr

namespace AuditEvent

inductive Outcome
  | success | failure
  deriving DecidableEq, Repr

end AuditEvent

structure AuditEvent (P : Type) where
  direction : Direction
  service : String
  method : String
  path : String
  outcome : AuditEvent.Outcome
  latencyMs : ℚ
  status : Option ℕ := none
  errorCode : Option String := none
  errorClass : Option String := none
  requestId : Option String := none
  correlationId : Option String := none
  payload : P
  details : P
  timestamp : ℚ
  deriving DecidableEq

end ResilienceKit.Audit

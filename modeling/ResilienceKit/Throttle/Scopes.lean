import Mathlib.Data.String.Basic

/-!
# Throttle.Scopes — the keys that the adapters derive

`build_key` puts the scope's prefix before an attribute of the request; for `ENDPOINT` the attribute is the
path, which the caller of the service chooses.
-/

namespace ResilienceKit.Throttle

inductive Scope
  | IP
  | ENDPOINT
  | USER_TIER
  | GLOBAL
  | BURST
  | AUTH
  deriving DecidableEq, Repr

/-- The `ValidationError` of a missing attribute. -/
structure MissingAttr where
  message : String
  details : List (String × String)
  deriving DecidableEq, Repr

/-- The attributes of a request; `None` counts as missing. -/
abbrev Attrs := String → Option String

def required (attrs : Attrs) (key : String) : Except MissingAttr String :=
  match attrs key with
  | some value =>
    if value = "" then .error ⟨"Throttle scope requires attr '" ++ key ++ "'.", [("missing_attr", key)]⟩
    else .ok value
  | none => .error ⟨"Throttle scope requires attr '" ++ key ++ "'.", [("missing_attr", key)]⟩

def buildKey (scope : Scope) (attrs : Attrs) : Except MissingAttr String :=
  match scope with
  | .GLOBAL => .ok "throttle:global"
  | .IP => do return "throttle:ip:" ++ (← required attrs "ip")
  | .ENDPOINT => do return "throttle:endpoint:" ++ (← required attrs "endpoint")
  | .USER_TIER => do return "throttle:user_tier:" ++ (← required attrs "user_tier")
  | .BURST => do return "throttle:burst:" ++ (← required attrs "ip")
  | .AUTH => do return "throttle:auth:" ++ (← required attrs "ip")

/-- `_default_attrs`. -/
def defaultAttrs (clientIp : Option String) (path : String) : Attrs
  | "ip" => clientIp
  | "endpoint" => some path
  | _ => none

/-- Every path but the empty one gives an endpoint key. -/
theorem buildKey_endpoint {path : String} (h : path ≠ "") (clientIp : Option String) :
    buildKey .ENDPOINT (defaultAttrs clientIp path) = .ok ("throttle:endpoint:" ++ path) := by
  have hreq : required (defaultAttrs clientIp path) "endpoint" = .ok path := if_neg h
  rw [buildKey, hreq]
  rfl

end ResilienceKit.Throttle

import ResilienceKit.CircuitBreaker.Base
import ResilienceKit.Lib.LuaNumber
import ResilienceKit.Lib.Redis

/-!
# CircuitBreaker.LuaScript — `BREAKER_LUA`

One execution of the script is one atomic `Redis.Cmd` on the hash of the breaker.  `Hash` is what the
hash means, `effect` what an action does to that meaning, and `BREAKER_LUA_ok` says that the script
computes `effect` on every keyspace whose hash is well formed and has not expired.
-/

namespace ResilienceKit

open Redis

namespace BreakerLua

inductive Action
  | is_available | record_success | record_failure | reset | get_stats
  | other (name : String)
  deriving DecidableEq, Repr

/-- `{flag, state, remaining}`, or the four texts of `get_stats`. -/
inductive Reply
  | answer (flag : ℤ) (state remaining : String)
  | stats (state failureCount successCount lastFailure : String)
  deriving DecidableEq, Repr

def text : Scalar → String
  | .text s => s
  | .num q => Lua.tostring q

/-- The script's local variables. -/
structure Vals where
  state : String
  fc : ℚ
  sc : ℚ
  lf : ℚ

def read_state (now : ℚ) (key : String) : Cmd Vals := do
  let vals ← hmget now key ["state", "failure_count", "success_count", "last_failure"]
  return {
    state := ((vals.getD 0 none).map text).getD "closed"
    fc := ((vals.getD 1 none).bind Scalar.tonumber).getD 0
    sc := ((vals.getD 2 none).bind Scalar.tonumber).getD 0
    lf := ((vals.getD 3 none).bind Scalar.tonumber).getD 0 }

/-- The lifetime is far from the 64 bits of the server, which would refuse a longer one. -/
def write_state (now : ℚ) (key : String) (ttl : ℤ) (s : Vals) : Cmd Unit := do
  hmset now key [("state", .text s.state), ("failure_count", .num s.fc), ("success_count", .num s.sc),
    ("last_failure", .num s.lf)]
  let _ ← setLifetime now key ttl
  return ()

/-- The half-open check that starts every action. -/
def check (now : ℚ) (key : String) (ttl : ℤ) (recoveryTimeout : ℚ) (s : Vals) : Cmd Vals :=
  if s.state = "open" ∧ now - s.lf ≥ recoveryTimeout then do
    let s := { s with state := "half_open", sc := 0 }
    write_state now key ttl s
    return s
  else return s

/-- The variables after the branch of `record_success`. -/
def success (successThreshold : ℤ) (s : Vals) : Vals :=
  if s.state = "half_open" then
    let s := { s with sc := s.sc + 1 }
    if s.sc ≥ (successThreshold : ℚ) then { s with state := "closed", fc := 0 } else s
  else if s.state = "closed" then { s with fc := 0 }
  else s

/-- The variables after the branch of `record_failure`. -/
def failure (failureThreshold : ℤ) (now : ℚ) (s : Vals) : Vals :=
  let s := { s with fc := s.fc + 1, lf := now }
  if s.state = "half_open" then { s with state := "open" }
  else if s.state = "closed" ∧ s.fc ≥ (failureThreshold : ℚ) then { s with state := "open" }
  else s

/-- The branches on `ARGV[1]`. -/
def act (now : ℚ) (key : String) (ttl : ℤ) (failureThreshold successThreshold : ℤ)
    (recoveryTimeout : ℚ) (action : Action) (s : Vals) : Cmd Reply :=
  match action with
  | .is_available =>
    if s.state = "open" then
      let remaining := recoveryTimeout - (now - s.lf)
      return .answer 0 s.state (Lua.tostring (if remaining < 0 then 0 else remaining))
    else return .answer 1 s.state "0"
  | .record_success => do
    let s := success successThreshold s
    write_state now key ttl s
    return .answer 1 s.state "0"
  | .record_failure => do
    let s := failure failureThreshold now s
    write_state now key ttl s
    return .answer 1 s.state (Lua.tostring (if s.state = "open" then recoveryTimeout else 0))
  | .reset => do
    let _ ← del now key
    return .answer 1 "closed" "0"
  | .get_stats => return .stats s.state (Lua.tostring s.fc) (Lua.tostring s.sc) (Lua.tostring s.lf)
  | .other _ => return .answer 0 "error" "0"

def BREAKER_LUA (key : String) (action : Action) (failureThreshold successThreshold : ℤ)
    (recoveryTimeout now : ℚ) : Cmd Reply := do
  let ttl := ⌈recoveryTimeout * 10⌉
  let s ← read_state now key
  let s ← check now key ttl recoveryTimeout s
  act now key ttl failureThreshold successThreshold recoveryTimeout action s

/-! ### What the hash means -/

structure Hash where
  state : BreakerState := .CLOSED
  failureCount : ℕ := 0
  successCount : ℕ := 0
  lastFailure : ℚ := 0
  deriving DecidableEq, Repr

def stateText : BreakerState → String
  | .CLOSED => "closed"
  | .OPEN => "open"
  | .HALF_OPEN => "half_open"

/-- `_STATE_MAP.get(state_str, BreakerState.CLOSED)`. -/
def stateOf (s : String) : BreakerState :=
  if s = "open" then .OPEN else if s = "half_open" then .HALF_OPEN else .CLOSED

@[simp] theorem stateOf_stateText (st : BreakerState) : stateOf (stateText st) = st := by
  cases st <;> decide

def fields (h : Hash) (name : String) : Option Scalar :=
  if name = "state" then some (.text (stateText h.state))
  else if name = "failure_count" then some (.num h.failureCount)
  else if name = "success_count" then some (.num h.successCount)
  else if name = "last_failure" then some (.num h.lastFailure)
  else none

/-- The meaning of the four fields; a missing field has its default. -/
def decode (fs : String → Option Scalar) : Hash where
  state := stateOf (((fs "state").map text).getD "closed")
  failureCount := (((fs "failure_count").bind Scalar.tonumber).getD 0).num.toNat
  successCount := (((fs "success_count").bind Scalar.tonumber).getD 0).num.toNat
  lastFailure := ((fs "last_failure").bind Scalar.tonumber).getD 0

@[simp] theorem decode_fields (h : Hash) : decode (fields h) = h := by
  have hstate : fields h "state" = some (.text (stateText h.state)) := if_pos rfl
  have hfailures : fields h "failure_count" = some (.num h.failureCount) := by
    rw [fields, if_neg (by decide), if_pos rfl]
  have hsuccesses : fields h "success_count" = some (.num h.successCount) := by
    rw [fields, if_neg (by decide), if_neg (by decide), if_pos rfl]
  have hlast : fields h "last_failure" = some (.num h.lastFailure) := by
    rw [fields, if_neg (by decide), if_neg (by decide), if_neg (by decide), if_pos rfl]
  rw [decode, hstate, hfailures, hsuccesses, hlast]
  simp [text, Scalar.tonumber]

@[simp] theorem decode_none : decode (fun _ => none) = {} := by
  simp [decode]
  decide

/-- The hash as it is stored, expired or not. -/
def hashOf (key : String) (db : Db) : Hash :=
  match db key with
  | some ⟨.hash fs, _⟩ => decode fs
  | _ => {}

/-- The hash as a command sees it; what has expired is not there. -/
def seen (now : ℚ) (key : String) (db : Db) : Hash :=
  match visible now db key with
  | some ⟨.hash fs, _⟩ => decode fs
  | _ => {}

/-- The key holds nothing, or a hash written by the script. -/
def Wf (key : String) (db : Db) : Prop :=
  db key = none ∨ ∃ h d, db key = some ⟨.hash (fields h), some d⟩

/-- The hash has not expired. -/
def Fresh (key : String) (now : ℚ) (db : Db) : Prop :=
  ∀ d, (db key).bind Entry.expireAt = some d → now ≤ d

instance (key : String) (now : ℚ) (db : Db) : Decidable (Fresh key now db) :=
  inferInstanceAs (Decidable (∀ d ∈ (db key).bind Entry.expireAt, now ≤ d))

variable (cfg : BreakerConfig)

/-- The half-open check. -/
def checked (now : ℚ) (h : Hash) : Hash :=
  if h.state = .OPEN ∧ now - h.lastFailure ≥ cfg.resetTimeout then
    { h with state := .HALF_OPEN, successCount := 0 }
  else h

def succeeded (h : Hash) : Hash :=
  match h.state with
  | .HALF_OPEN =>
    if (h.successCount : ℤ) + 1 ≥ cfg.successThreshold then
      { h with state := .CLOSED, failureCount := 0, successCount := h.successCount + 1 }
    else { h with successCount := h.successCount + 1 }
  | .CLOSED => { h with failureCount := 0 }
  | .OPEN => h

def failed (now : ℚ) (h : Hash) : Hash :=
  let h := { h with failureCount := h.failureCount + 1, lastFailure := now }
  match h.state with
  | .HALF_OPEN => { h with state := .OPEN }
  | .CLOSED => if (h.failureCount : ℤ) ≥ cfg.failMax then { h with state := .OPEN } else h
  | .OPEN => h

/-- What an action records. -/
def Action.verdict : Action → Verdict
  | .record_success => .success
  | .record_failure => .failure
  | _ => .uncounted

/-- What an action does after the half-open check. -/
def acted (now : ℚ) (action : Action) (h : Hash) : Hash :=
  match action with
  | .record_success => succeeded cfg h
  | .record_failure => failed cfg now h
  | .reset => {}
  | _ => h

/-- What an action does to the meaning of the hash. -/
def effect (now : ℚ) (action : Action) (h : Hash) : Hash := acted cfg now action (checked cfg now h)

variable {cfg} {now : ℚ} {key : String} {db : Db} {h h' : Hash}

/-! ### What each branch does -/

/-- Out of OPEN the half-open check does nothing. -/
theorem checked_of_ne_open (ho : h.state ≠ .OPEN) : checked cfg now h = h := by
  simp [checked, ho]

theorem checked_open (ho : h.state = .OPEN) (ht : now - h.lastFailure < cfg.resetTimeout) :
    checked cfg now h = h := by
  simp [checked, ho, not_le.mpr ht]

theorem checked_halfOpen (ho : h.state = .OPEN) (ht : cfg.resetTimeout ≤ now - h.lastFailure) :
    checked cfg now h = { h with state := .HALF_OPEN, successCount := 0 } := by
  simp [checked, ho, ht]

/-- The half-open check leaves the hash alone, or takes a timed-out OPEN to HALF_OPEN. -/
theorem checked_cases (cfg : BreakerConfig) (now : ℚ) (h : Hash) :
    checked cfg now h = h ∨ (h.state = .OPEN ∧ cfg.resetTimeout ≤ now - h.lastFailure ∧
      checked cfg now h = { h with state := .HALF_OPEN, successCount := 0 }) := by
  by_cases ho : h.state = .OPEN
  · rcases le_or_gt cfg.resetTimeout (now - h.lastFailure) with ht | ht
    · exact .inr ⟨ho, ht, checked_halfOpen ho ht⟩
    · exact .inl (checked_open ho ht)
  · exact .inl (checked_of_ne_open ho)

theorem succeeded_closed (hh : h.state = .CLOSED) :
    succeeded cfg h = { h with failureCount := 0 } := by
  simp [succeeded, hh]

theorem succeeded_open (hh : h.state = .OPEN) : succeeded cfg h = h := by
  simp [succeeded, hh]

theorem succeeded_closes (hh : h.state = .HALF_OPEN)
    (ht : cfg.successThreshold ≤ (h.successCount : ℤ) + 1) :
    succeeded cfg h =
      { h with state := .CLOSED, failureCount := 0, successCount := h.successCount + 1 } := by
  simp [succeeded, hh, ht]

theorem succeeded_counts (hh : h.state = .HALF_OPEN)
    (ht : (h.successCount : ℤ) + 1 < cfg.successThreshold) :
    succeeded cfg h = { h with successCount := h.successCount + 1 } := by
  simp [succeeded, hh, not_le.mpr ht]

theorem failed_halfOpen (hh : h.state = .HALF_OPEN) : failed cfg now h =
    { h with state := .OPEN, failureCount := h.failureCount + 1, lastFailure := now } := by
  simp [failed, hh]

theorem failed_open (hh : h.state = .OPEN) : failed cfg now h =
    { h with failureCount := h.failureCount + 1, lastFailure := now } := by
  simp [failed, hh]

theorem failed_opens (hh : h.state = .CLOSED) (ht : cfg.failMax ≤ (h.failureCount : ℤ) + 1) :
    failed cfg now h =
      { h with state := .OPEN, failureCount := h.failureCount + 1, lastFailure := now } := by
  simp [failed, hh, ht]

theorem failed_counts (hh : h.state = .CLOSED) (ht : (h.failureCount : ℤ) + 1 < cfg.failMax) :
    failed cfg now h = { h with failureCount := h.failureCount + 1, lastFailure := now } := by
  simp [failed, hh, not_le.mpr ht]

theorem failed_state_cases (cfg : BreakerConfig) (now : ℚ) (h : Hash) :
    (failed cfg now h).lastFailure = now ∧
      ((failed cfg now h).state = .OPEN ∨ (failed cfg now h).state = h.state) := by
  cases hst : h.state with
  | CLOSED =>
    by_cases ht : cfg.failMax ≤ (h.failureCount : ℤ) + 1
    · rw [failed_opens hst ht]
      exact ⟨rfl, .inl rfl⟩
    · rw [failed_counts hst (not_le.mp ht)]
      exact ⟨rfl, .inr hst⟩
  | OPEN =>
    rw [failed_open hst]
    exact ⟨rfl, .inl hst⟩
  | HALF_OPEN =>
    rw [failed_halfOpen hst]
    exact ⟨rfl, .inl rfl⟩

theorem succeeded_open_iff (cfg : BreakerConfig) (h : Hash) :
    (succeeded cfg h).state = .OPEN ↔ h.state = .OPEN := by
  cases hst : h.state with
  | CLOSED => simp [succeeded_closed hst, hst]
  | OPEN => simp [succeeded_open hst, hst]
  | HALF_OPEN =>
    by_cases ht : cfg.successThreshold ≤ (h.successCount : ℤ) + 1
    · simp [succeeded_closes hst ht]
    · simp [succeeded_counts hst (not_le.mp ht), hst]

theorem open_of_checked (ho : (checked cfg now h).state = .OPEN) :
    h.state = .OPEN := by
  rcases checked_cases cfg now h with he | ⟨ho', -, -⟩
  · rwa [he] at ho
  · exact ho'

theorem checked_of_closed (hc : (checked cfg now h).state = .CLOSED) : checked cfg now h = h := by
  rcases checked_cases cfg now h with he | ⟨-, -, he⟩
  · exact he
  · rw [he] at hc
    cases hc

theorem succeeded_count_of_closed (hc : (succeeded cfg h).state = .CLOSED) :
    (succeeded cfg h).failureCount = 0 := by
  cases hst : h.state with
  | CLOSED => rw [succeeded_closed hst]
  | OPEN => simp [succeeded_open hst, hst] at hc
  | HALF_OPEN =>
    by_cases ht : cfg.successThreshold ≤ (h.successCount : ℤ) + 1
    · rw [succeeded_closes hst ht]
    · simp [succeeded_counts hst (not_le.mp ht), hst] at hc

theorem failed_count (cfg : BreakerConfig) (now : ℚ) (h : Hash) :
    (failed cfg now h).failureCount = h.failureCount + 1 := by
  unfold failed
  cases h.state <;> dsimp only
  split_ifs <;> rfl

/-! ### The script computes `effect` -/

theorem hashOf_fields {x : Option ℚ} (hdb : db key = some ⟨.hash (fields h), x⟩) :
    hashOf key db = h := by
  simp [hashOf, hdb]

theorem hashOf_none (hdb : db key = none) : hashOf key db = {} := by
  simp [hashOf, hdb]

theorem seen_of_live {d : ℚ} (hdb : db key = some ⟨.hash (fields h), some d⟩) (hd : now ≤ d) :
    seen now key db = h := by
  simp [seen, visible_eq_some.mpr ⟨hdb, live_some.mpr hd⟩]

theorem seen_of_invisible (hv : visible now db key = none) : seen now key db = {} := by
  simp [seen, hv]

/-- A well-formed key shows its hash, or nothing. -/
theorem Wf.visible_cases (hw : Wf key db) (now : ℚ) :
    visible now db key = none ∨
      ∃ h d, db key = some ⟨.hash (fields h), some d⟩ ∧ now ≤ d := by
  rcases hw with hnone | ⟨h, d, hdb⟩
  · exact .inl (visible_none hnone)
  · by_cases hd : now ≤ d
    · exact .inr ⟨h, d, hdb, hd⟩
    · refine .inl (visible_eq_none.mpr fun e he => ?_)
      obtain rfl := Option.some.inj (hdb.symm.trans he)
      simpa [live] using hd

theorem Wf.seen_cases (hw : Wf key db) (now : ℚ) :
    seen now key db = hashOf key db ∨ seen now key db = {} := by
  rcases hw.visible_cases now with hv | ⟨h, d, hdb, hd⟩
  · exact .inr (seen_of_invisible hv)
  · exact .inl (by rw [seen_of_live hdb hd, hashOf_fields hdb])

/-- Until it expires the hash is seen as it is stored. -/
theorem Wf.seen_fresh (hw : Wf key db) (hf : Fresh key now db) :
    seen now key db = hashOf key db := by
  rcases hw with hnone | ⟨h, d, hdb⟩
  · rw [seen_of_invisible (visible_none hnone), hashOf_none hnone]
  · rw [seen_of_live hdb (hf d (by rw [hdb]; rfl)), hashOf_fields hdb]

theorem Wf.fields?_eq (hw : Wf key db) (now : ℚ) :
    ∃ fs, fields? now db key = some fs ∧
      ((fs = fun _ => none) ∧ seen now key db = {} ∨ fs = fields (seen now key db)) := by
  rcases hw.visible_cases now with hv | ⟨h, d, hdb, hd⟩
  · exact ⟨_, by rw [fields?, hv], .inl ⟨rfl, seen_of_invisible hv⟩⟩
  · refine ⟨fields h, ?_, .inr (by rw [seen_of_live hdb hd])⟩
    rw [fields?, visible_eq_some.mpr ⟨hdb, live_some.mpr hd⟩]

/-- The variables that stand for `h`. -/
def vals (h : Hash) : Vals := ⟨stateText h.state, h.failureCount, h.successCount, h.lastFailure⟩

theorem read_state_ok (hw : Wf key db) (now : ℚ) :
    (read_state now key).run db = .ok (vals (seen now key db)) db := by
  obtain ⟨fs, hfs, hcase⟩ := hw.fields?_eq now
  unfold read_state
  rw [bind_ok (hmget_ok _ hfs)]
  show EStateM.Result.ok _ db = _
  rcases hcase with ⟨rfl, hseen⟩ | rfl
  · rw [hseen]
    simp [vals, stateText]
  · simp [vals, fields, text, Scalar.tonumber]

/-- `HMSET` of the four fields turns what was there into `fields h`. -/
theorem hmset_fields {fs : String → Option Scalar} (hfs : (fs = fun _ => none) ∨ ∃ h', fs = fields h')
    (h : Hash) :
    setFields [("state", .text (stateText h.state)), ("failure_count", .num h.failureCount),
      ("success_count", .num h.successCount), ("last_failure", .num h.lastFailure)] fs =
        fields h := by
  have hother : ∀ name, name ≠ "state" → name ≠ "failure_count" → name ≠ "success_count" →
      name ≠ "last_failure" → fs name = none := by
    intro name h1 h2 h3 h4
    rcases hfs with rfl | ⟨h', rfl⟩
    · rfl
    · simp [fields, h1, h2, h3, h4]
  funext name
  simp only [setFields, List.foldl_cons, List.foldl_nil, Function.update_apply, fields]
  by_cases h4 : name = "last_failure"
  · subst h4
    simp
  by_cases h3 : name = "success_count"
  · subst h3
    simp
  by_cases h2 : name = "failure_count"
  · subst h2
    simp
  by_cases h1 : name = "state"
  · subst h1
    simp
  simp [h1, h2, h3, h4, hother name h1 h2 h3 h4]

/-- `HMSET` of the four fields: the hash is there, with the deadline it had. -/
theorem hmset_ok_fields (hw : Wf key db) (now : ℚ) (h : Hash) : ∃ db' x,
    (hmset now key [("state", .text (stateText h.state)), ("failure_count", .num h.failureCount),
      ("success_count", .num h.successCount), ("last_failure", .num h.lastFailure)]).run db =
        .ok () db' ∧ visible now db' key = some ⟨.hash (fields h), x⟩ := by
  obtain ⟨fs, hfs, hcase⟩ := hw.fields?_eq now
  have hset := hmset_ok [("state", .text (stateText h.state)),
    ("failure_count", .num h.failureCount), ("success_count", .num h.successCount),
    ("last_failure", .num h.lastFailure)] hfs
  rw [hmset_fields (hcase.imp (fun hc => hc.1) fun hc => ⟨_, hc⟩) h] at hset
  exact ⟨_, _, hset, visible_update_self (live_deadline _)⟩

theorem write_state_ok (hw : Wf key db) (now : ℚ) {ttl : ℤ} (httl : 0 < ttl) (h : Hash) :
    ∃ db', (write_state now key ttl (vals h)).run db = .ok () db' ∧
      db' key = some ⟨.hash (fields h), some (now + ttl)⟩ := by
  obtain ⟨db₁, x, hset, hv⟩ := hmset_ok_fields hw now h
  exact ⟨_, (bind_ok hset).trans (bind_ok (setLifetime_ok hv httl)), Function.update_self ..⟩

/-- With a lifetime that is not positive the write deletes the hash. -/
theorem write_state_past (hw : Wf key db) (now : ℚ) {ttl : ℤ} (httl : ttl ≤ 0) (h : Hash) :
    ∃ db', (write_state now key ttl (vals h)).run db = .ok () db' ∧ db' key = none := by
  obtain ⟨db₁, x, hset, hv⟩ := hmset_ok_fields hw now h
  exact ⟨_, (bind_ok hset).trans (bind_ok (setLifetime_past hv httl)), Function.update_self ..⟩

/-- The keyspace `db'` after an action that turned what was seen in `db` into `h`: written with a new
deadline, deleted, or left alone. -/
def Left (now : ℚ) (key : String) (ttl : ℤ) (db db' : Db) (h : Hash) : Prop :=
  db' key = some ⟨.hash (fields h), some (now + ttl)⟩ ∨ (db' key = none ∧ h = {}) ∨
    (db' = db ∧ h = seen now key db)

theorem Left.wf {db' : Db} {ttl : ℤ} (hl : Left now key ttl db db' h) (hw : Wf key db) :
    Wf key db' := by
  rcases hl with hdb | ⟨hdb, -⟩ | ⟨rfl, -⟩
  · exact .inr ⟨h, _, hdb⟩
  · exact .inl hdb
  · exact hw

theorem Left.seen_eq {db' : Db} {ttl : ℤ} (hl : Left now key ttl db db' h) (httl : 0 < ttl) :
    seen now key db' = h := by
  rcases hl with hdb | ⟨hdb, rfl⟩ | ⟨rfl, rfl⟩
  · have : (0 : ℚ) < ttl := by exact_mod_cast httl
    exact seen_of_live hdb (by linarith)
  · exact seen_of_invisible (visible_none hdb)
  · rfl

/-- What is stored is what was written, unless nothing was. -/
theorem Left.hashOf_eq {db' : Db} {ttl : ℤ} (hl : Left now key ttl db db' h) :
    hashOf key db' = h ∨ (db' = db ∧ h = seen now key db) := by
  rcases hl with hdb | ⟨hdb, rfl⟩ | hsame
  · exact .inl (hashOf_fields hdb)
  · exact .inl (hashOf_none hdb)
  · exact .inr hsame

theorem vals_open : (vals h).state = "open" ↔ h.state = .OPEN := by
  show stateText h.state = "open" ↔ h.state = .OPEN
  cases h.state <;> decide

theorem success_vals (cfg : BreakerConfig) (h : Hash) :
    success cfg.successThreshold (vals h) = vals (succeeded cfg h) := by
  have hcast : (cfg.successThreshold : ℚ) ≤ h.successCount + 1 ↔
      cfg.successThreshold ≤ (h.successCount : ℤ) + 1 := by
    constructor <;> intro hle <;> exact_mod_cast hle
  unfold success succeeded vals
  cases hst : h.state with
  | CLOSED => simp [stateText]
  | OPEN => simp [stateText, hst]
  | HALF_OPEN =>
    by_cases ht : cfg.successThreshold ≤ (h.successCount : ℤ) + 1
    · simp [stateText, hcast, ht]
    · simp [stateText, hcast, ht]

theorem failure_vals (cfg : BreakerConfig) (now : ℚ) (h : Hash) :
    failure cfg.failMax now (vals h) = vals (failed cfg now h) := by
  have hcast : (cfg.failMax : ℚ) ≤ h.failureCount + 1 ↔
      cfg.failMax ≤ (h.failureCount : ℤ) + 1 := by
    constructor <;> intro hle <;> exact_mod_cast hle
  unfold failure failed vals
  cases hst : h.state with
  | CLOSED =>
    by_cases ht : cfg.failMax ≤ (h.failureCount : ℤ) + 1
    · simp [stateText, hcast, ht]
    · simp [stateText, hcast, ht]
  | OPEN => simp [stateText]
  | HALF_OPEN => simp [stateText]

theorem check_ok (cfg : BreakerConfig) (hw : Wf key db) (now : ℚ) {ttl : ℤ} (httl : 0 < ttl) :
    ∃ db', (check now key ttl cfg.resetTimeout (vals (seen now key db))).run db =
        .ok (vals (checked cfg now (seen now key db))) db' ∧
      Left now key ttl db db' (checked cfg now (seen now key db)) := by
  set h := seen now key db with hh
  by_cases hc : h.state = .OPEN ∧ now - h.lastFailure ≥ cfg.resetTimeout
  · obtain ⟨db', hrun, hdb'⟩ :=
      write_state_ok hw now httl { h with state := .HALF_OPEN, successCount := 0 }
    have hvals : ({ vals h with state := "half_open", sc := 0 } : Vals) =
        vals { h with state := .HALF_OPEN, successCount := 0 } := by
      simp [vals, stateText]
    rw [checked, if_pos hc]
    refine ⟨db', ?_, .inl hdb'⟩
    unfold check
    rw [if_pos ⟨vals_open.mpr hc.1, hc.2⟩]
    dsimp only
    rw [hvals, bind_ok hrun]
    rfl
  · rw [checked, if_neg hc]
    refine ⟨db, ?_, .inr (.inr ⟨rfl, hh⟩)⟩
    unfold check
    rw [if_neg fun hc' => hc ⟨vals_open.mp hc'.1, hc'.2⟩]
    rfl

/-- What the script answers to `is_available`. -/
def available (h : Hash) (r : Reply) : Prop :=
  ∃ remaining, r = .answer (if h.state = .OPEN then 0 else 1) (stateText h.state) remaining

theorem act_ok (cfg : BreakerConfig) (hw : Wf key db) (now : ℚ) {ttl : ℤ} (httl : 0 < ttl)
    (action : Action) :
    ∃ r db', (act now key ttl cfg.failMax cfg.successThreshold cfg.resetTimeout action
        (vals (seen now key db))).run db = .ok r db' ∧
      Left now key ttl db db' (acted cfg now action (seen now key db)) ∧
      (action = .is_available → available (seen now key db) r) ∧
      (action.verdict ≠ .uncounted → hashOf key db' = acted cfg now action (seen now key db)) := by
  cases action with
  | is_available =>
    unfold act
    dsimp only
    by_cases ho : (seen now key db).state = .OPEN
    · rw [if_pos (vals_open.mpr ho)]
      exact ⟨_, db, rfl, .inr (.inr ⟨rfl, rfl⟩), fun _ => ⟨_, by rw [if_pos ho]; rfl⟩,
        fun hc => absurd rfl hc⟩
    · rw [if_neg (mt vals_open.mp ho)]
      exact ⟨_, db, rfl, .inr (.inr ⟨rfl, rfl⟩), fun _ => ⟨_, by rw [if_neg ho]; rfl⟩,
        fun hc => absurd rfl hc⟩
  | record_success =>
    obtain ⟨db', hrun, hdb'⟩ :=
      write_state_ok hw now httl (succeeded cfg (seen now key db))
    unfold act
    dsimp only
    rw [success_vals, bind_ok hrun]
    exact ⟨_, db', rfl, .inl hdb', nofun, fun _ => hashOf_fields hdb'⟩
  | record_failure =>
    obtain ⟨db', hrun, hdb'⟩ :=
      write_state_ok hw now httl (failed cfg now (seen now key db))
    unfold act
    dsimp only
    rw [failure_vals, bind_ok hrun]
    exact ⟨_, db', rfl, .inl hdb', nofun, fun _ => hashOf_fields hdb'⟩
  | reset =>
    obtain ⟨n, hdel⟩ := del_ok now key db
    unfold act
    dsimp only
    rw [bind_ok hdel]
    exact ⟨_, _, rfl, .inr (.inl ⟨Function.update_self .., rfl⟩), nofun,
      fun hc => absurd rfl hc⟩
  | get_stats =>
    exact ⟨_, db, rfl, .inr (.inr ⟨rfl, rfl⟩), nofun, fun hc => absurd rfl hc⟩
  | other name =>
    exact ⟨_, db, rfl, .inr (.inr ⟨rfl, rfl⟩), nofun, fun hc => absurd rfl hc⟩

/-- On a hash that has not expired, what is stored afterwards is what the action made of it. -/
theorem Left.hashOf_fresh {db' : Db} {ttl : ℤ} (hl : Left now key ttl db db' h) (hw : Wf key db)
    (hf : Fresh key now db) : hashOf key db' = h := by
  rcases hl.hashOf_eq with he | ⟨rfl, he⟩
  · exact he
  · rw [he, hw.seen_fresh hf]

/-- The lifetime every write gives the hash. -/
def lifetime (cfg : BreakerConfig) : ℤ := ⌈cfg.resetTimeout * 10⌉

theorem lifetime_pos (hT : 0 < cfg.resetTimeout) : 0 < lifetime cfg :=
  Int.ceil_pos.mpr (by linarith)

theorem Left.trans {db₁ db₂ : Db} {h₁ h₂ : Hash} {ttl : ℤ} (h01 : Left now key ttl db db₁ h₁)
    (h12 : Left now key ttl db₁ db₂ h₂) (httl : 0 < ttl) : Left now key ttl db db₂ h₂ := by
  rcases h12 with hdb | hdel | ⟨rfl, rfl⟩
  · exact .inl hdb
  · exact .inr (.inl hdel)
  · rw [h01.seen_eq httl]
    exact h01

/-- **Spec of the script**: on a well-formed key it computes `effect` on what it sees. -/
theorem BREAKER_LUA_ok (hw : Wf key db) (hT : 0 < cfg.resetTimeout) (now : ℚ) (action : Action) :
    ∃ r db', (BREAKER_LUA key action cfg.failMax cfg.successThreshold cfg.resetTimeout now).run db =
        .ok r db' ∧
      Left now key (lifetime cfg) db db' (effect cfg now action (seen now key db)) ∧
      (action = .is_available → available (checked cfg now (seen now key db)) r) ∧
      (action.verdict ≠ .uncounted → hashOf key db' = effect cfg now action (seen now key db)) := by
  have httl := lifetime_pos hT
  obtain ⟨db₁, hrun₁, hl₁⟩ := check_ok cfg hw now httl
  obtain ⟨r, db₂, hrun₂, hl₂, hr, hwrote⟩ := act_ok cfg (hl₁.wf hw) now httl action
  rw [hl₁.seen_eq httl] at hrun₂ hl₂ hr hwrote
  refine ⟨r, db₂, ?_, hl₁.trans hl₂ httl, hr, hwrote⟩
  unfold BREAKER_LUA
  rw [bind_ok (read_state_ok hw now)]
  exact (bind_ok hrun₁).trans hrun₂

/-- With a timeout that is not positive nothing is ever stored. -/
theorem BREAKER_LUA_past (hnone : db key = none) (hT : cfg.resetTimeout ≤ 0) (now : ℚ)
    (action : Action) :
    ∃ r db', (BREAKER_LUA key action cfg.failMax cfg.successThreshold cfg.resetTimeout now).run db =
        .ok r db' ∧ db' key = none := by
  have hw : Wf key db := .inl hnone
  have hseen : seen now key db = {} := seen_of_invisible (visible_none hnone)
  have httl : ⌈cfg.resetTimeout * 10⌉ ≤ 0 := by
    rw [Int.ceil_le]
    push_cast
    linarith
  have hcheck : (check now key ⌈cfg.resetTimeout * 10⌉ cfg.resetTimeout (vals {})).run db =
      .ok (vals {}) db := by
    unfold check
    rw [if_neg (fun hc => by simp [vals, stateText] at hc)]
    rfl
  have hact : ∃ r db', (act now key ⌈cfg.resetTimeout * 10⌉ cfg.failMax cfg.successThreshold
      cfg.resetTimeout action (vals {})).run db = .ok r db' ∧ db' key = none := by
    cases action with
    | is_available => exact ⟨_, db, rfl, hnone⟩
    | record_success =>
      obtain ⟨db', hrun, hdb'⟩ := write_state_past hw now httl (succeeded cfg {})
      unfold act
      dsimp only
      rw [success_vals, bind_ok hrun]
      exact ⟨_, db', rfl, hdb'⟩
    | record_failure =>
      obtain ⟨db', hrun, hdb'⟩ := write_state_past hw now httl (failed cfg now {})
      unfold act
      dsimp only
      rw [failure_vals, bind_ok hrun]
      exact ⟨_, db', rfl, hdb'⟩
    | reset =>
      obtain ⟨n, hdel⟩ := del_ok now key db
      unfold act
      dsimp only
      rw [bind_ok hdel]
      exact ⟨_, _, rfl, Function.update_self ..⟩
    | get_stats => exact ⟨_, db, rfl, hnone⟩
    | other name => exact ⟨_, db, rfl, hnone⟩
  obtain ⟨r, db', hrun, hdb'⟩ := hact
  refine ⟨r, db', ?_, hdb'⟩
  have hread := read_state_ok hw now
  rw [hseen] at hread
  unfold BREAKER_LUA
  rw [bind_ok hread]
  exact (bind_ok hcheck).trans hrun

/-! ### The script as a backend -/

/-- What a worker gets from `_eval`: the state the script leaves and its reply; an error of the script
is answered like an action it does not know. -/
def answer : EStateM.Result Redis.Error Db Reply → Db × Reply
  | .ok r db => (db, r)
  | .error _ db => (db, .answer 0 "error" "0")

def Reply.flag : Reply → ℤ
  | .answer flag _ _ => flag
  | .stats .. => 0

def Reply.state : Reply → String
  | .answer _ state _ => state
  | .stats state .. => state

def eval (cfg : BreakerConfig) (key : String) (now : ℚ) (action : Action) (db : Db) : Db × Reply :=
  answer ((BREAKER_LUA key action cfg.failMax cfg.successThreshold cfg.resetTimeout now).run db)

/-- Any number of workers on one hash, while Redis answers; server and workers share the clock. -/
def breaker (cfg : BreakerConfig) (key : String) : AsyncBreaker Db where
  admission now db :=
    let (db, r) := eval cfg key now .is_available db
    (db, ⟨r.flag ≠ 0, stateOf r.state⟩)
  recordSuccess now db := (eval cfg key now .record_success db).1
  recordFailure now db := (eval cfg key now .record_failure db).1
  state now db :=
    let (db, r) := eval cfg key now .is_available db
    (db, stateOf r.state)
  reset now db := (eval cfg key now .reset db).1

/-- The workers' calls overlap in any order. -/
def system (cfg : BreakerConfig) (key : String) (V : Type) :
    Mealy (AsyncBreaker.Sys Db) (Mealy.Timed ℚ (AsyncBreaker.Ev V)) (AsyncBreaker.Out V) :=
  (breaker cfg key).overlapped cfg fun _ => none

theorem eval_ok (hw : Wf key db) (hT : 0 < cfg.resetTimeout) (now : ℚ) (action : Action) :
    Left now key (lifetime cfg) db (eval cfg key now action db).1
      (effect cfg now action (seen now key db)) := by
  obtain ⟨r, db', hrun, hl, -⟩ := BREAKER_LUA_ok hw hT now action
  rw [eval, hrun]
  exact hl

theorem eval_past (hnone : db key = none) (hT : cfg.resetTimeout ≤ 0) (now : ℚ) (action : Action) :
    (eval cfg key now action db).1 key = none := by
  obtain ⟨r, db', hrun, hdb'⟩ := BREAKER_LUA_past hnone hT now action
  rw [eval, hrun]
  exact hdb'

/-- **Spec of an admission** on the hash. -/
theorem eval_available (hw : Wf key db) (hT : 0 < cfg.resetTimeout) (now : ℚ) :
    ((eval cfg key now .is_available db).2.flag ≠ 0 ↔
        (checked cfg now (seen now key db)).state ≠ .OPEN) ∧
      stateOf (eval cfg key now .is_available db).2.state =
        (checked cfg now (seen now key db)).state := by
  obtain ⟨r, db', hrun, -, hr, -⟩ := BREAKER_LUA_ok hw hT now .is_available
  obtain ⟨remaining, rfl⟩ := hr rfl
  rw [eval, hrun]
  refine ⟨?_, stateOf_stateText _⟩
  show (if (checked cfg now (seen now key db)).state = .OPEN then (0 : ℤ) else 1) ≠ 0 ↔ _
  by_cases ho : (checked cfg now (seen now key db)).state = .OPEN <;> simp [ho]

end BreakerLua

end ResilienceKit

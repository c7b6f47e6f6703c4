import ResilienceKit.Exceptions
import ResilienceKit.Lib.Locks
import ResilienceKit.Throttle.RedisClient

/-!
# Singletons.Getters — the globals of a process, under threads

`get_settings`, `get_metrics`, `get_dispatcher` and `get_queue` test their global without the lock, test and build
under it, and read it a second time to return it.  `get_redis_client` and `get_cache` return what they have in hand;
`get_throttle` and `get_cache` take no lock.  Any number of threads call them, and the functions that set or reset
the globals, one operation at a time and in any order (`process`).
-/

namespace ResilienceKit.Singletons

open Locks

/-! ### Memory -/

inductive Lock
  | settings
  | metrics
  | dispatcher
  | tasks
  | clients
  | recovery
  deriving DecidableEq

/-- `_caches` and `_clients` have a global for each of their keys. -/
inductive Global
  | settings
  | metrics
  | dispatcher
  | tasks
  | throttle
  | cache (name : String)
  | client (url : String)
  deriving DecidableEq

/-- The names that `ResilienceSettings.backend` can be. -/
inductive Backend
  | auto
  | memory
  | redis
  | pybreaker
  deriving DecidableEq

structure AuditSettings where
  sink : String := "stdlib_logging"
  sanitizer : String := "default"
  redactFields : List String := ["password", "token", "secret", "authorization", "api_key", "x-api-key", "cookie",
    "set-cookie"]
  queueSize : ℕ := 10000
  batchMax : ℕ := 100
  batchIntervalMs : ℕ := 50

/-- `source` is the `SettingsSource` that loaded the instance; `ident` tells two of them apart. -/
structure Settings where
  ident : ℕ
  source : ℕ
  backend : Backend := .auto
  redisUrl : Option String := none
  metricsSink : String := "noop"
  metricsCardinalityBudget : Option ℤ := none
  failMode : ThrottleFailMode := .open
  audit : AuditSettings := {}

/-- What an object is; other objects stand in it with their `ident`. -/
inductive Made
  | foreign
  | noopMetricsSink
  | stdlibLoggingMetricsSink
  | boundedMetricsSink (sink : ℕ) (cardinalityBudget : ℤ)
  | noopAuditBackend
  | stdlibLoggingAuditBackend
  | defaultRedactor (fields : List String)
  | fireAndForgetDispatcher (backend sanitizer queueSize batchMax batchIntervalMs : ℕ)
  | fireAndForget (queueSize batchMax batchIntervalMs : ℕ)
  | inMemoryAsyncThrottle
  | redisAsyncThrottle (client : ℕ) (failMode : ThrottleFailMode)
  | inMemoryAsyncCache
  | redisAsyncCache (client : ℕ) (name : String)
  | redis (url : String)

structure Obj where
  ident : ℕ
  made : Made

/-- What stands in a global. -/
@[reducible] def Val : Global → Type
  | .settings => Settings
  | .metrics => Obj
  | .dispatcher => Obj
  | .tasks => Obj
  | .throttle => Obj
  | .cache _ => Obj
  | .client _ => Obj

/-- `swaps` counts how often the global has been set or reset; no code reads it. -/
structure Slot (V : Type) where
  value : Option V := none
  swaps : ℕ := 0

structure Mem where
  source : ℕ := 0
  slots : (g : Global) → Slot (Val g) := fun _ => {}
  roster : List Obj := []
  made : ℕ := 0

/-- The lock under which the global is written. -/
def guard : Global → Option Lock
  | .settings => some .settings
  | .metrics => some .metrics
  | .dispatcher => some .dispatcher
  | .tasks => some .tasks
  | .throttle => none
  | .cache _ => none
  | .client _ => some .clients

/-! ### Operations -/

inductive Raised
  | attributeOfNone
  | unknownBackend (group name : String)
  | valueError (message : String)
  | outside (exc : PyExc)

/-- What an explicit instance, an import string or an entry point comes to; `nothing` if the name is none of these. -/
inductive Lookup
  | nothing
  | made
  | raised (exc : PyExc)
  | unknown (group name : String)

/-- Code outside of the kit that returns or raises. -/
inductive Outside
  | importRedis
  | importBackend
  | fromUrl (url : String)

inductive Ask
  | read (g : Global)
  | store (g : Global) (v : Val g)
  | install (g : Global) (v : Val g)
  | clear (which : Global → Bool)
  | setSource (source : ℕ)
  | load
  | lookup (group name : String) (args : List String)
  | make (made : Made)
  | findSpec
  | attempt (what : Outside)
  | enlist (backend : Obj)

@[reducible] def Answer : Ask → Type
  | .read g => Option (Val g)
  | .store _ _ => Unit
  | .install _ _ => Unit
  | .clear _ => Unit
  | .setSource _ => Unit
  | .load => Except PyExc Settings
  | .lookup _ _ _ => Lookup
  | .make _ => Obj
  | .findSpec => Except PyExc Bool
  | .attempt _ => Option PyExc
  | .enlist _ => Unit

def Mem.put (m : Mem) (g : Global) (slot : Slot (Val g)) : Mem := { m with slots := Function.update m.slots g slot }

/-- One atomic operation. -/
def serve (m : Mem) : (q : Ask) → Answer q → Answer q × Mem
  | .read g, _ => ((m.slots g).value, m)
  | .store g v, _ => ((), m.put g ⟨some v, (m.slots g).swaps⟩)
  | .install g v, _ => ((), m.put g ⟨some v, (m.slots g).swaps + 1⟩)
  | .clear which, _ =>
    ((), { m with slots := fun g => if which g then ⟨none, (m.slots g).swaps + 1⟩ else m.slots g })
  | .setSource source, _ => ((), { m with source })
  | .load, reply => (reply.map fun s => { s with source := m.source }, m)
  | .lookup _ _ _, reply => (reply, m)
  | .make made, _ => (⟨m.made, made⟩, { m with made := m.made + 1 })
  | .findSpec, reply => (reply, m)
  | .attempt _, reply => (reply, m)
  | .enlist backend, _ =>
    ((), { m with roster :=
      if m.roster.any fun b => b.ident == backend.ident then m.roster else m.roster ++ [backend] })

/-! ### Functions -/

/-- Code of a thread. -/
abbrev M (α : Type) := Locking Lock Answer Raised α

def ask (q : Ask) : M (Answer q) := act q

def read (g : Global) : M (Option (Val g)) := ask (.read g)

def attempt (what : Outside) : M Unit := do
  match ← ask (.attempt what) with
  | none => pure ()
  | some exc => throw (.outside exc)

/-- The shape of `get_settings`, `get_metrics`, `get_dispatcher` and `get_queue`. -/
def lazily (g : Global) (lock : Lock) (build : M (Val g)) : M (Option (Val g)) := do
  let first ← read g
  if first.isSome then
    read g
  else
    withLock lock do
      let again ← read g
      if again.isSome then
        pure ()
      else do
        let v ← build
        ask (.store g v)
    read g

/-- `_source.load()` -/
def load : M Settings := do
  match ← ask .load with
  | .ok s => pure s
  | .error exc => throw (.outside exc)

def getSettings : M (Option Settings) := lazily .settings .settings load

/-- `settings = get_settings()`, and an attribute of it. -/
def settingsAttribute : M Settings := do
  match ← getSettings with
  | some s => pure s
  | none => throw .attributeOfNone

/-- The importable string and the entry points come before the names that the kit has itself. -/
def resolveProvider (group name : String) (builtins : String → Option (M Obj)) (args : List String) : M Obj := do
  match ← ask (.lookup group name args) with
  | .made => ask (.make .foreign)
  | .raised exc => throw (.outside exc)
  | .unknown group name => throw (.unknownBackend group name)
  | .nothing =>
    match builtins name with
    | some factory => factory
    | none => throw (.unknownBackend group name)

def builtinSinks (name : String) : Option (M Obj) :=
  if name = "noop" then some (ask (.make .noopMetricsSink))
  else if name = "stdlib_logging" then some (ask (.make .stdlibLoggingMetricsSink))
  else none

/-- `_resolve_from_settings` of the metrics. -/
def resolveFromSettings : M Obj := do
  let settings ← settingsAttribute
  let sink ← Code.tryElse (resolveProvider "resilience_kit.metrics_sinks" settings.metricsSink builtinSinks [])
    (fun
      | .unknownBackend _ _ => ask (.make .noopMetricsSink)
      | e => throw e)
    pure
  match settings.metricsCardinalityBudget with
  | some budget => ask (.make (.boundedMetricsSink sink.ident budget))
  | none => pure sink

def getMetrics : M (Option Obj) := lazily .metrics .metrics resolveFromSettings

def builtinBackends (name : String) : Option (M Obj) :=
  if name = "noop" then some (ask (.make .noopAuditBackend))
  else if name = "stdlib_logging" then some (ask (.make .stdlibLoggingAuditBackend))
  else none

def builtinSanitizers (fields : List String) (name : String) : Option (M Obj) :=
  if name = "default" then some (ask (.make (.defaultRedactor fields))) else none

/-- `_build_from_settings` of the audit. -/
def buildFromSettings : M Obj := do
  let settings ← settingsAttribute
  let backend ← resolveProvider "resilience_kit.audit_backends" settings.audit.sink builtinBackends []
  let sanitizer ← resolveProvider "resilience_kit.audit_sanitizers" settings.audit.sanitizer
    (builtinSanitizers settings.audit.redactFields) settings.audit.redactFields
  ask (.make (.fireAndForgetDispatcher backend.ident sanitizer.ident settings.audit.queueSize settings.audit.batchMax
    settings.audit.batchIntervalMs))

def getDispatcher : M (Option Obj) := lazily .dispatcher .dispatcher buildFromSettings

def getQueue : M (Option Obj) := lazily .tasks .tasks (ask (.make (.fireAndForget 10000 100 20)))

def getRedisClient (url : String) : M Obj := do
  match ← read (.client url) with
  | some existing => pure existing
  | none =>
    attempt .importRedis
    withLock .clients do
      match ← read (.client url) with
      | some client => pure client
      | none =>
        attempt (.fromUrl url)
        let client ← ask (.make (.redis url))
        ask (.store (.client url) client)
        pure client

def registerForRecovery (backend : Obj) : M Unit := withLock .recovery (ask (.enlist backend))

def truthy : Option String → Bool
  | some s => s ≠ ""
  | none => false

/-- `_resolve_auto`; `find_spec` raises where `redis` is not installed. -/
def resolveAuto : M String := do
  let settings ← settingsAttribute
  if truthy settings.redisUrl then
    match ← ask .findSpec with
    | .ok true => pure "redis"
    | .ok false => pure "memory"
    | .error exc => throw (.outside exc)
  else pure "memory"

def backendName : Backend → M String
  | .auto => resolveAuto
  | .memory => pure "memory"
  | .redis => pure "redis"
  | .pybreaker => pure "pybreaker"

/-- `_build_redis` of the throttle and of the cache. -/
def buildRedis (message : String) (made : Settings → Obj → Made) : M Obj := do
  let settings ← settingsAttribute
  if truthy settings.redisUrl then
    attempt .importBackend
    let client ← getRedisClient (settings.redisUrl.getD "")
    let backend ← ask (.make (made settings client))
    registerForRecovery backend
    pure backend
  else throw (.valueError message)

def builtinThrottles (name : String) : Option (M Obj) :=
  if name = "memory" then some (ask (.make .inMemoryAsyncThrottle))
  else if name = "redis" then some
    (buildRedis "Cannot build a redis throttle without RESILIENCE_REDIS_URL." fun settings client =>
      .redisAsyncThrottle client.ident settings.failMode)
  else none

def builtinCaches (key name : String) : Option (M Obj) :=
  if name = "memory" then some (ask (.make .inMemoryAsyncCache))
  else if name = "redis" then some
    (buildRedis "Cannot build a redis cache without RESILIENCE_REDIS_URL." fun _ client =>
      .redisAsyncCache client.ident key)
  else none

/-- What the providers of the throttle and of the cache do after they have found nothing. -/
def configured (group : String) (builtins : String → Option (M Obj)) (args : List String) : M Obj := do
  let settings ← settingsAttribute
  let name ← backendName settings.backend
  resolveProvider group name builtins args

def getThrottle : M (Option Obj) := do
  let first ← read .throttle
  if first.isSome then
    read .throttle
  else
    let throttle ← configured "resilience_kit.throttle_backends" builtinThrottles []
    ask (.store .throttle throttle)
    read .throttle

def getCache (name : String) : M Obj := do
  match ← read (.cache name) with
  | some cached => pure cached
  | none =>
    let cached ← configured "resilience_kit.cache_backends" (builtinCaches name) [name]
    ask (.store (.cache name) cached)
    pure cached

def setSettingsSource (source : ℕ) : M Unit := withLock .settings do
  ask (.setSource source)
  ask (.clear (· = .settings))

/-- The default source is `EnvSettingsSource`. -/
def resetSettingsCache : M Unit := withLock .settings do
  ask (.clear (· = .settings))
  ask (.setSource 0)

def setMetrics (sink : Obj) : M Unit := withLock .metrics (ask (.install .metrics sink))

def resetMetrics : M Unit := withLock .metrics (ask (.clear (· = .metrics)))

def setDispatcher (dispatcher : Obj) : M Unit := withLock .dispatcher (ask (.install .dispatcher dispatcher))

def resetDispatcher : M Unit := withLock .dispatcher (ask (.clear (· = .dispatcher)))

def resetTasks : M Unit := withLock .tasks (ask (.clear (· = .tasks)))

def isClient : Global → Bool
  | .client _ => true
  | _ => false

def isCache : Global → Bool
  | .cache _ => true
  | _ => false

def resetRedisClients : M Unit := withLock .clients (ask (.clear isClient))

def resetThrottle : M Unit := ask (.clear (· = .throttle))

def resetCache : M Unit := ask (.clear isCache)

/-! ### Threads -/

inductive Call
  | get (g : Global)
  | setSettingsSource (source : ℕ)
  | resetSettingsCache
  | setMetrics (sink : Obj)
  | resetMetrics
  | setDispatcher (dispatcher : Obj)
  | resetDispatcher
  | resetTasks
  | resetRedisClients
  | resetThrottle
  | resetCache

@[reducible] def Result : Call → Type
  | .get g => Except Raised (Option (Val g))
  | _ => Except Raised Unit

def getter : (g : Global) → M (Option (Val g))
  | .settings => getSettings
  | .metrics => getMetrics
  | .dispatcher => getDispatcher
  | .tasks => getQueue
  | .throttle => getThrottle
  | .cache name => return some (← getCache name)
  | .client url => return some (← getRedisClient url)

def code : (c : Call) → Thread Lock Answer (Result c)
  | .get g => (getter g).run
  | .setSettingsSource source => (setSettingsSource source).run
  | .resetSettingsCache => resetSettingsCache.run
  | .setMetrics sink => (setMetrics sink).run
  | .resetMetrics => resetMetrics.run
  | .setDispatcher dispatcher => (setDispatcher dispatcher).run
  | .resetDispatcher => resetDispatcher.run
  | .resetTasks => resetTasks.run
  | .resetRedisClients => resetRedisClients.run
  | .resetThrottle => resetThrottle.run
  | .resetCache => resetCache.run

/-- The process after a run. -/
def process (es : List (Ev Call Answer)) : Sys Mem Lock Answer Result := after serve code {} es

end ResilienceKit.Singletons

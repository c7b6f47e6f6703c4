import ResilienceKit.CircuitBreaker.LuaScript
import ResilienceKit.CircuitBreaker.Memory

/-!
# CircuitBreaker.RedisClient — `RedisAsyncBreaker`

The client runs the script while it is healthy and its embedded in-memory breaker while it is not.  A
`Fault` says whether a script execution raises `RedisError`, and whether the script had run by then.
`quiet` runs one operation after the other while Redis never errors; in `faulty` any number of calls are
in flight, every script execution has its own fault, and `try_recover` comes at any point.
-/

namespace ResilienceKit

open AsyncBreaker BreakerLua Redis

structure RedisAsyncBreaker where
  healthy : Bool := true
  degradedSince : Option ℚ := none
  logDegradedOnce : Bool := false
  fallback : InMemoryAsyncBreaker := {}

/-- The client and the keyspace. -/
structure World where
  client : RedisAsyncBreaker := {}
  db : Db := fun _ => none

def World.setFallback (w : World) (m : InMemoryAsyncBreaker) : World :=
  ⟨{ w.client with fallback := m }, w.db⟩

namespace RedisAsyncBreaker

/-- How an `EVALSHA` ends: with the script's answer, or with `RedisError` before or after the script
ran. -/
inductive Fault
  | none | before | after
  deriving DecidableEq, Repr

variable (cfg : BreakerConfig) (key : String) {V : Type}

/-- `_eval`: no reply stands for `RedisError`. -/
def eval (now : ℚ) (fault : Fault) (action : Action) (db : Db) : Db × Option Reply :=
  let res := (BREAKER_LUA key action cfg.failMax cfg.successThreshold cfg.resetTimeout now).run db
  match fault, res with
  | .none, .ok r db => (db, some r)
  | .none, .error _ db => (db, .none)
  | .before, _ => (db, .none)
  | .after, res => (final res, .none)

def markDegraded (now : ℚ) (s : RedisAsyncBreaker) : RedisAsyncBreaker :=
  let s := if s.healthy then { s with healthy := false, degradedSince := some now } else s
  { s with logDegradedOnce := true }

/-- `_record`: an error is swallowed. -/
def record (now : ℚ) (fault : Fault) (action : Action) (w : World) : World :=
  match eval cfg key now fault action w.db with
  | (db, some _) => ⟨w.client, db⟩
  | (db, .none) => ⟨w.client.markDegraded now, db⟩

/-- The machine that serves a call. -/
inductive Machine
  | primary | fallback
  deriving DecidableEq, Repr

instance {p : Machine → Prop} [DecidablePred p] : Decidable (∀ m, p m) :=
  decidable_of_iff (p .primary ∧ p .fallback)
    ⟨fun h m => by cases m; exacts [h.1, h.2], fun h => ⟨h _, h _⟩⟩

/-- The admission step of the embedded breaker's `call`. -/
def admissionFallback (t : ℚ) (w : World) : World × Option Machine :=
  let (m, a) := InMemoryAsyncBreaker.admission cfg t w.client.fallback
  (w.setFallback m, if a.admitted then some .fallback else .none)

/-- `call` up to the caller's function: the machine that serves it, if it is admitted. -/
def admission (t : ℚ) (f : Fault) (w : World) : World × Option Machine :=
  if ¬ w.client.healthy then admissionFallback cfg t w
  else
    match eval cfg key t f .is_available w.db with
    | (db, .none) => admissionFallback cfg t ⟨w.client.markDegraded t, db⟩
    | (db, some r) => (⟨w.client, db⟩, if r.flag = 0 then .none else some .primary)

/-- `call` from the end of the caller's function on. -/
def complete (m : Machine) (now : ℚ) (f : Fault) (o : Outcome V) (w : World) : World :=
  match m with
  | .fallback => w.setFallback ((InMemoryAsyncBreaker.breaker cfg).complete cfg now o w.client.fallback)
  | .primary =>
    match cfg.verdict o with
    | .success => record cfg key now f .record_success w
    | .failure => record cfg key now f .record_failure w
    | .uncounted => w

def stateFallback (t : ℚ) (w : World) : World × Out V :=
  let (m, st) := InMemoryAsyncBreaker.reportState cfg t w.client.fallback
  (w.setFallback m, .reported st)

def state (t : ℚ) (f : Fault) (w : World) : World × Out V :=
  if ¬ w.client.healthy then stateFallback cfg t w
  else
    match eval cfg key t f .is_available w.db with
    | (db, .none) => stateFallback cfg t ⟨w.client.markDegraded t, db⟩
    | (db, some r) => (⟨w.client, db⟩, .reported (stateOf r.state))

def reset (t : ℚ) (f : Fault) (w : World) : World :=
  let w := record cfg key t f .reset w
  w.setFallback w.client.fallback.reset

/-- `try_recover`; `pong` says whether the `PING` is answered. -/
def tryRecover (pong : Bool) (s : RedisAsyncBreaker) : RedisAsyncBreaker × Bool :=
  if s.healthy then (s, false)
  else if pong then ({ s with healthy := true, degradedSince := .none, logDegradedOnce := false }, true)
  else (s, false)

/-! ### Operations one after the other, while Redis never errors -/

def apply (op : Op V) (w : World) : World × Out V :=
  match op with
  | .call t₁ o t₂ =>
    match admission cfg key t₁ .none w with
    | (w, .none) => (w, .shortCircuit)
    | (w, some m) => (complete cfg key m t₂ .none o w, .finished o)
  | .state t => state cfg key t .none w
  | .reset t => (reset cfg key t .none w, .resetDone)

def quiet (V : Type) : Mealy World (Op V) (Out V) where
  init := {}
  step w op := apply cfg key op w

/-! ### Any faults and any recoveries -/

/-- A script execution of the step ends with the fault `f`; `id` names a call. -/
inductive Ev (V : Type)
  | call (id : ℕ) (f : Fault)
  | finish (id : ℕ) (o : Outcome V) (f : Fault)
  | state (f : Fault)
  | reset (f : Fault)
  | tryRecover (pong : Bool)
  deriving DecidableEq

inductive Ans (V : Type)
  | out (o : Out V)
  | recovered (b : Bool)
  deriving DecidableEq

/-- The client, the keyspace, and the calls in flight with the machines that serve them. -/
structure Sys where
  world : World := {}
  inflight : List (ℕ × Machine) := []

def faulty (V : Type) : Mealy Sys (Mealy.Timed ℚ (Ev V)) (Ans V) where
  init := {}
  step s e :=
    match e.ev with
    | .call id f =>
      match admission cfg key e.time f s.world with
      | (w, .none) => (⟨w, s.inflight⟩, .out .shortCircuit)
      | (w, some m) => (⟨w, (id, m) :: s.inflight⟩, .out .admitted)
    | .finish id o f =>
      match s.inflight.lookup id with
      | .none => (s, .out .ignored)
      | some m =>
        (⟨complete cfg key m e.time f o s.world, s.inflight.erase (id, m)⟩, .out (.finished o))
    | .state f =>
      let (w, out) := state cfg key e.time f s.world
      (⟨w, s.inflight⟩, .out out)
    | .reset f => (⟨reset cfg key e.time f s.world, s.inflight⟩, .out .resetDone)
    | .tryRecover pong =>
      let (c, b) := tryRecover pong s.world.client
      (⟨⟨c, s.world.db⟩, s.inflight⟩, .recovered b)

end RedisAsyncBreaker

end ResilienceKit

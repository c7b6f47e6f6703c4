import ResilienceKit.Cache.Memory
import ResilienceKit.CircuitBreaker.RedisClient
import ResilienceKit.Health.Backend
import ResilienceKit.Lib.RedisStrings

/-!
# Cache.RedisClient — `RedisAsyncCache`

`CacheCalls` is the code of the methods with all their awaits.  `client` runs them one after the other; every
command of an operation and its `PING` can fail, a command before or after the server has executed it.  An
error of the server is a `ResponseError`.
-/

namespace ResilienceKit

open Mealy (Timed)
open Cache Redis

namespace CacheCalls

open Code RedisHealth

/-- What the methods await: the commands and the fallback. -/
inductive Await
  | get (key : String)
  | set (key : String) (value : CacheValue) (ex : Option ℤ) (nx : Bool)
  | incrby (key : String) (amount : ℤ)
  | decrby (key : String) (amount : ℤ)
  | expire (key : String) (ttl : ℤ)
  | delete (key : String)
  | fallbackGet (key : String)
  | fallbackSet (key : String) (value : CacheValue) (ttl : Option ℤ)
  | fallbackAdd (key : String) (value : CacheValue) (ttl : Option ℤ)
  | fallbackDelete (key : String)

@[reducible] def Result : Await → Type
  | .get _ => Option CacheValue
  | .set _ _ _ _ => Bool
  | .incrby _ _ => ℤ
  | .decrby _ _ => ℤ
  | .expire _ _ => ℕ
  | .delete _ => ℕ
  | .fallbackGet _ => Option CacheValue
  | .fallbackSet _ _ _ => Unit
  | .fallbackAdd _ _ _ => Bool
  | .fallbackDelete _ => Unit

abbrev Py (α : Type) := RedisHealth.Py Result α

variable (probeInterval : ℚ)

def get (key : String) : Py (Option CacheValue) :=
  guarded probeInterval (await (Await.get key)) (await (Await.fallbackGet key)) fun v => return v

def set (key : String) (value : CacheValue) (ttl : Option ℤ) : Py Unit :=
  guarded probeInterval (await (Await.set key value ttl false)) (await (Await.fallbackSet key value ttl))
    fun _ => return ()

def add (key : String) (value : CacheValue) (ttl : Option ℤ) : Py Bool :=
  guarded probeInterval (await (Await.set key value ttl true)) (await (Await.fallbackAdd key value ttl))
    fun res => return res

/-- The command of `incr`. -/
def change (key : String) (amount : ℤ) : Py ℤ :=
  if 0 ≤ amount then await (Await.incrby key amount) else await (Await.decrby key (-amount))

/-- `incr` neither probes nor falls back. -/
def incr (key : String) (amount : ℤ) (ttl : Option ℤ) : Py ℤ := do
  let newValue : ℤ ← change key amount
  match ttl with
  | some seconds =>
    if newValue = amount then do
      let _ ← await (Await.expire key seconds)
      return newValue
    else return newValue
  | none => return newValue

def delete (key : String) : Py Unit :=
  guarded probeInterval (await (Await.delete key)) (await (Await.fallbackDelete key)) fun _ => return ()

end CacheCalls

namespace RedisAsyncCache

open Code RedisHealth
open CacheCalls (Await Result)
open RedisAsyncBreaker (Fault)

structure Config where
  cacheAlias : String := "default"
  keyPrefix : String := ""
  probeInterval : ℚ := 30

/-- `_k`. -/
def Config.fullKey (cfg : Config) (key : String) : String :=
  if cfg.keyPrefix = "" then key else cfg.keyPrefix ++ key

/-- The client and the keyspace. -/
structure World where
  flags : Flags := {}
  fallback : InMemoryAsyncCache := {}
  db : Db := fun _ => none

/-- The server's clock and the client's. -/
structure Instant where
  server : ℚ
  monotonic : ℚ
  deriving DecidableEq

/-- Neither clock has gone back. -/
instance : LE Instant := ⟨fun a b => a.server ≤ b.server ∧ a.monotonic ≤ b.monotonic⟩

instance (a b : Instant) : Decidable (a ≤ b) := inferInstanceAs (Decidable (_ ∧ _))

/-- Whether a `PING` is answered, and how the command and the `EXPIRE` of an operation end. -/
structure Faults where
  pong : Bool := true
  command : Fault := .none
  expire : Fault := .none
  deriving DecidableEq

/-- The text under which redis-py stores a value; canonical decimals are numbers to the server. -/
def encode : CacheValue → Scalar
  | .int n => .num n
  | .bytes s =>
    match s.toInt? with
    | some n => if toString n = s then .num n else .text s
    | none => .text s

/-- The bytes that redis-py returns. -/
def received : Scalar → CacheValue
  | .text s => .bytes s
  | .num q => .bytes (toString q.num)

/-- A command with its fault. -/
def execute {α : Type} (fault : Fault) (x : Cmd α) (w : World) : Except PyExc α × World :=
  match fault, x.run w.db with
  | .none, .ok a db => (.ok a, { w with db })
  | .none, .error _ db => (.error ⟨.responseError, 0⟩, { w with db })
  | .before, _ => (.error ⟨.redisError, 0⟩, w)
  | .after, res => (.error ⟨.redisError, 0⟩, { w with db := final res })

/-- The flags, the server and the fallback answer. -/
def serve (cfg : Config) (t : Instant) (f : Faults) (w : World) :
    (q : RedisHealth.Ask Await) → RedisHealth.Answer Result q × World
  | .healthy => (w.flags.healthy, w)
  | .degradedSince => (w.flags.degradedSince, w)
  | .markDegraded _ => ((), { w with flags := w.flags.markDegraded t.monotonic })
  | .recover => ((), { w with flags := w.flags.recover })
  | .probeDue interval =>
    let (due, flags) := w.flags.probeDue interval t.monotonic
    (due, { w with flags })
  | .ping => (if f.pong then .ok () else .error ⟨.redisError, 0⟩, w)
  | .await (.get key) =>
    execute f.command (do return (← getStr t.server (cfg.fullKey key)).map received) w
  | .await (.set key value ex nx) =>
    execute f.command (setStr t.server (cfg.fullKey key) (encode value) ex nx) w
  | .await (.incrby key amount) => execute f.command (incrby t.server (cfg.fullKey key) amount) w
  | .await (.decrby key amount) => execute f.command (decrby t.server (cfg.fullKey key) amount) w
  | .await (.expire key ttl) => execute f.expire (expire t.server (cfg.fullKey key) ttl) w
  | .await (.delete key) => execute f.command (del t.server (cfg.fullKey key)) w
  | .await (.fallbackGet key) =>
    let (fallback, v) := w.fallback.get t.monotonic key
    (.ok v, { w with fallback })
  | .await (.fallbackSet key value ttl) =>
    (.ok (), { w with fallback := w.fallback.set t.monotonic key value ttl })
  | .await (.fallbackAdd key value ttl) =>
    let (fallback, created) := w.fallback.add t.monotonic key value ttl
    (.ok created, { w with fallback })
  | .await (.fallbackDelete key) => (.ok (), { w with fallback := w.fallback.delete key })

/-- What the caller of an operation gets. -/
def answered {α : Type} (f : α → Ans) : World × Except PyExc α → World × Ans
  | (w, .ok a) => (w, f a)
  | (w, .error exc) => (w, .raised exc)

/-- What is called: an operation, or one of the two methods of the recovery monitor. -/
inductive Request
  | op (op : Op)
  | healthCheck
  | tryRecover
  deriving DecidableEq

/-- A call with the faults that it meets. -/
structure Ev where
  request : Request
  faults : Faults := {}
  deriving DecidableEq

inductive Out
  | ans (a : Ans)
  | health (snapshot : HealthSnapshot)
  | recovered (b : Bool)
  deriving DecidableEq

/-- An operation against the server. -/
def apply (cfg : Config) (t : Instant) (f : Faults) (op : Op) (w : World) : World × Ans :=
  let serve := serve cfg t f
  match op with
  | .get key => answered .got (play serve w (CacheCalls.get cfg.probeInterval key))
  | .set key value ttl =>
    answered (fun _ => .stored) (play serve w (CacheCalls.set cfg.probeInterval key value ttl))
  | .add key value ttl => answered .added (play serve w (CacheCalls.add cfg.probeInterval key value ttl))
  | .incr key amount ttl => answered .counted (play serve w (CacheCalls.incr key amount ttl))
  | .delete key => answered (fun _ => .deleted) (play serve w (CacheCalls.delete cfg.probeInterval key))

/-- One client, its calls one after the other. -/
def client (cfg : Config) : Mealy World (Timed Instant Ev) Out where
  init := {}
  step w e :=
    match e.ev.request with
    | .op op =>
      let (w, a) := apply cfg e.time e.ev.faults op w
      (w, .ans a)
    | .healthCheck =>
      match play (serve cfg e.time e.ev.faults) w (healthCheck ("redis unreachable; alias=" ++ cfg.cacheAlias)) with
      | (w, .ok snapshot) => (w, .health snapshot)
      | (w, .error exc) => (w, .ans (.raised exc))
    | .tryRecover =>
      match play (serve cfg e.time e.ev.faults) w tryRecover with
      | (w, .ok b) => (w, .recovered b)
      | (w, .error exc) => (w, .ans (.raised exc))

end RedisAsyncCache

end ResilienceKit

import ResilienceKit.Lib.LuaNumber
import ResilienceKit.Lib.Redis
import ResilienceKit.Throttle.Base

/-!
# Throttle.LuaScript — `SLIDING_WINDOW_LUA` and the clients that run it

One execution of the script is one atomic `Redis.Cmd`.  The clients of all pods share the keyspace and
nothing else; `check` runs the script at the server's time, `reset` deletes the sorted set and leaves
the `:__seq` counter behind.  The script's numbers are exact here, its doubles are in Throttle.LuaClock.
-/

namespace ResilienceKit

open Mealy (Timed)
open Throttle Redis

namespace SlidingWindow

/-- The script's `{allowed, count, ttl}`. -/
structure Reply where
  allowed : ℤ
  count : ℤ
  ttl : ℤ
  deriving DecidableEq, Repr

def seqKey (key : String) : String := key ++ ":__seq"

/-- The member id of an admission. -/
def member (now : ℚ) (seq : ℤ) : String := Lua.tostring now ++ ":" ++ Lua.tostring seq

/-- `SLIDING_WINDOW_LUA` at the server time `us` (in microseconds). -/
def SLIDING_WINDOW_LUA (us : ℕ) (key : String) (limit window : ℤ) : Cmd Reply := do
  let t := time us
  let now : ℚ := t.1 + t.2 / 1000000
  let cutoff := now - window
  let _ ← zremrangebyscore (clock us) key 0 cutoff
  let count ← zcard (clock us) key
  if limit ≤ (count : ℤ) then do
    let ttl ← ttl (clock us) key
    return ⟨0, count, if ttl < 0 then window else ttl⟩
  else do
    let seq ← incr (clock us) (seqKey key)
    let _ ← expire (clock us) (seqKey key) window
    let _ ← zadd (clock us) key now (member now seq)
    let _ ← expire (clock us) key window
    return ⟨1, count + 1, window⟩

end SlidingWindow

namespace RedisAsyncThrottle

open SlidingWindow

def fullKey (keyPrefix key : String) : String := keyPrefix ++ ":" ++ key

/-- `_eval`: the arguments are `str(rate.count)` and `str(int(rate.per_seconds))`. -/
def eval (keyPrefix : String) (us : ℕ) (key : String) (rate : Rate) : Cmd Reply :=
  SLIDING_WINDOW_LUA us (fullKey keyPrefix key) rate.count (pyInt rate.perSeconds)

/-- The answer of the server to an operation. -/
inductive Ans
  | replied (r : Reply)
  | resetDone
  | error (e : Redis.Error)
  deriving DecidableEq, Repr

def Ans.allowed : Ans → Bool
  | .replied r => r.allowed ≠ 0
  | _ => false

/-- The state a script leaves and its answer. -/
def answer : EStateM.Result Redis.Error Db Reply → Db × Ans
  | .ok r db => (db, .replied r)
  | .error e db => (db, .error e)

/-- The server under the operations of any number of healthy clients. -/
def throttle (keyPrefix : String) : Mealy Db (Timed ℕ Op) Ans where
  init := fun _ => none
  step db e :=
    match e.ev with
    | .check key rate => answer ((eval keyPrefix e.time key rate).run db)
    | .reset key => (final ((del (clock e.time) (fullKey keyPrefix key)).run db), .resetDone)

abbrev Rec := Mealy.Step Db (Timed ℕ Op) Ans

end RedisAsyncThrottle

namespace SlidingWindow

variable {us : ℕ} {db : Db} {key : String} {limit window : ℤ} {ms : List (String × ℚ)}

/-- What `ZREMRANGEBYSCORE` leaves of the set. -/
def kept (now : ℚ) (window : ℤ) (ms : List (String × ℚ)) : List (String × ℚ) :=
  ms.filter fun m => ¬ (0 ≤ m.2 ∧ m.2 ≤ now - window)

theorem seqKey_ne (key : String) : seqKey key ≠ key := by
  intro h
  have hl := congrArg String.length h
  simp [seqKey, String.length_append] at hl

theorem SLIDING_WINDOW_LUA_now : ((time us).1 : ℚ) + (time us).2 / 1000000 = clock us :=
  time_eq_clock us

theorem prunes (window : ℤ) (hm : members? (clock us) db key = some ms) :
    ∃ n, (zremrangebyscore (clock us) key 0 (clock us - window)).run db =
      .ok n (Function.update db key
        (zentry (kept (clock us) window ms) (deadline (clock us) db key))) :=
  zremrangebyscore_ok hm

/-- **Spec of a denial**: the set is pruned and nothing else changes. -/
theorem denies (limit window : ℤ) (hm : members? (clock us) db key = some ms)
    (hc : limit ≤ ((kept (clock us) window ms).length : ℤ)) :
    ∃ ttl, (SLIDING_WINDOW_LUA us key limit window).run db =
      .ok ⟨0, (kept (clock us) window ms).length, ttl⟩ (Function.update db key
        (zentry (kept (clock us) window ms) (deadline (clock us) db key))) ∧
      ∀ d, kept (clock us) window ms ≠ [] → deadline (clock us) db key = some d →
        ttl = if restSeconds (clock us) d < 0 then window else restSeconds (clock us) d := by
  obtain ⟨n, hrem⟩ := prunes window hm
  set db₁ : Db := Function.update db key
    (zentry (kept (clock us) window ms) (deadline (clock us) db key)) with hdb₁
  have hk₁ : db₁ key = zentry (kept (clock us) window ms) (deadline (clock us) db key) :=
    Function.update_self ..
  have hm' : members? (clock us) db₁ key = some (kept (clock us) window ms) :=
    members?_zentry (live_deadline _) hk₁
  obtain ⟨l, httl⟩ := ttl_ok (clock us) key db₁
  have hrun : (SLIDING_WINDOW_LUA us key limit window).run db =
      .ok ⟨0, (kept (clock us) window ms).length, if l < 0 then window else l⟩ db₁ := by
    unfold SLIDING_WINDOW_LUA
    dsimp only
    rw [SLIDING_WINDOW_LUA_now, bind_ok hrem, bind_ok (zcard_ok hm'), if_pos hc, bind_ok httl]
    rfl
  refine ⟨_, hrun, fun d hne hd => ?_⟩
  have hl : live (clock us) ⟨.zset (kept (clock us) window ms), some d⟩ = true := by
    rw [← hd]
    exact live_deadline _
  have hv : visible (clock us) db₁ key = some ⟨.zset (kept (clock us) window ms), some d⟩ := by
    rw [zentry, if_neg hne, hd] at hk₁
    exact visible_eq_some.mpr ⟨hk₁, hl⟩
  rw [ttl_deadline hv] at httl
  cases httl
  rfl

/-- **Spec of an admission**: the pruned set gets the new member, the counter goes up, and both keys
get the deadline of the window. -/
theorem admits {n : ℤ} (limit window : ℤ) (hm : members? (clock us) db key = some ms)
    (hn : counter? (clock us) db (seqKey key) = some n) (hx : Expirable (clock us) window) (hw : 0 < window)
    (hc : ((kept (clock us) window ms).length : ℤ) < limit) :
    ∃ db', (SLIDING_WINDOW_LUA us key limit window).run db =
        .ok ⟨1, (kept (clock us) window ms).length + 1, window⟩ db' ∧
      db' key = some ⟨.zset (insertMember (clock us) (member (clock us) (n + 1))
        (kept (clock us) window ms)), some (clock us + window)⟩ ∧
      db' (seqKey key) = some ⟨.str (.num ((n + 1 : ℤ) : ℚ)), some (clock us + window)⟩ := by
  obtain ⟨k, hrem⟩ := prunes window hm
  set db₁ : Db := Function.update db key
    (zentry (kept (clock us) window ms) (deadline (clock us) db key)) with hdb₁
  have hm₁ : members? (clock us) db₁ key = some (kept (clock us) window ms) :=
    members?_zentry (live_deadline _) (Function.update_self ..)
  have hn₁ : counter? (clock us) db₁ (seqKey key) = some n := by
    rw [counter?_congr (Function.update_of_ne (seqKey_ne key) _ _)]
    exact hn
  set db₂ : Db := Function.update db₁ (seqKey key)
    (some ⟨.str (.num ((n + 1 : ℤ) : ℚ)), deadline (clock us) db₁ (seqKey key)⟩) with hdb₂
  have hv₂ : visible (clock us) db₂ (seqKey key) =
      some ⟨.str (.num ((n + 1 : ℤ) : ℚ)), deadline (clock us) db₁ (seqKey key)⟩ :=
    visible_update_self (live_deadline _)
  set db₃ : Db := Function.update db₂ (seqKey key)
    (some ⟨.str (.num ((n + 1 : ℤ) : ℚ)), some (clock us + window)⟩) with hdb₃
  have hm₃ : members? (clock us) db₃ key = some (kept (clock us) window ms) := by
    rw [members?_congr (Function.update_of_ne (seqKey_ne key).symm _ _),
      members?_congr (Function.update_of_ne (seqKey_ne key).symm _ _)]
    exact hm₁
  obtain ⟨j, hadd⟩ := zadd_ok (clock us) (member (clock us) (n + 1)) hm₃
  set ms' := insertMember (clock us) (member (clock us) (n + 1)) (kept (clock us) window ms)
    with hms'
  have hne : ms' ≠ [] := insertMember_ne_nil
  set db₄ : Db := Function.update db₃ key (zentry ms' (deadline (clock us) db₃ key)) with hdb₄
  have hv₄ : visible (clock us) db₄ key = some ⟨.zset ms', deadline (clock us) db₃ key⟩ := by
    rw [hdb₄, zentry, if_neg hne]
    exact visible_update_self (live_deadline _)
  refine ⟨Function.update db₄ key (some ⟨.zset ms', some (clock us + window)⟩), ?_,
    Function.update_self .., ?_⟩
  · unfold SLIDING_WINDOW_LUA
    dsimp only
    rw [SLIDING_WINDOW_LUA_now, bind_ok hrem, bind_ok (zcard_ok hm₁), if_neg (not_le.mpr hc),
      bind_ok (incr_ok hn₁), bind_ok (expire_ok hv₂ hx hw), bind_ok hadd, bind_ok (expire_ok hv₄ hx hw)]
    rfl
  · rw [Function.update_of_ne (seqKey_ne key), hdb₄, Function.update_of_ne (seqKey_ne key), hdb₃,
      Function.update_self]

/-- **Spec of a refusal**: where the server does not take the lifetime, the script fails once it has counted,
and nothing is let in. -/
theorem refuses {n : ℤ} (limit : ℤ) (hm : members? (clock us) db key = some ms)
    (hn : counter? (clock us) db (seqKey key) = some n) (hx : ¬ Expirable (clock us) window)
    (hc : ((kept (clock us) window ms).length : ℤ) < limit) :
    ∃ db', (SLIDING_WINDOW_LUA us key limit window).run db = .error .invalidExpire db' ∧
      db' key = zentry (kept (clock us) window ms) (deadline (clock us) db key) ∧
      db' (seqKey key) = some ⟨.str (.num ((n + 1 : ℤ) : ℚ)), deadline (clock us) db (seqKey key)⟩ := by
  obtain ⟨k, hrem⟩ := prunes window hm
  set db₁ : Db := Function.update db key
    (zentry (kept (clock us) window ms) (deadline (clock us) db key)) with hdb₁
  have hm₁ : members? (clock us) db₁ key = some (kept (clock us) window ms) :=
    members?_zentry (live_deadline _) (Function.update_self ..)
  have hseq₁ : db₁ (seqKey key) = db (seqKey key) := Function.update_of_ne (seqKey_ne key) _ _
  have hn₁ : counter? (clock us) db₁ (seqKey key) = some n := by
    rw [counter?_congr hseq₁]
    exact hn
  have hd₁ : deadline (clock us) db₁ (seqKey key) = deadline (clock us) db (seqKey key) := by
    simp only [deadline, visible, hseq₁]
  refine ⟨Function.update db₁ (seqKey key)
    (some ⟨.str (.num ((n + 1 : ℤ) : ℚ)), deadline (clock us) db (seqKey key)⟩), ?_, ?_,
    Function.update_self ..⟩
  · unfold SLIDING_WINDOW_LUA
    dsimp only
    rw [SLIDING_WINDOW_LUA_now, bind_ok hrem, bind_ok (zcard_ok hm₁), if_neg (not_le.mpr hc),
      bind_ok (incr_ok hn₁), bind_error (expire_refused hx), hd₁]
  · rw [Function.update_of_ne (seqKey_ne key).symm, hdb₁, Function.update_self]

/-- Frame: the script writes its key and the counter of its key. -/
theorem keeps {k : String} (h : k ≠ key) (hs : k ≠ seqKey key) :
    Keeps k (SLIDING_WINDOW_LUA us key limit window) := by
  unfold SLIDING_WINDOW_LUA
  refine .bind (.zremrangebyscore h _ _) fun _ => .bind .zcard fun count => ?_
  split
  · exact .bind .ttl fun _ => .pure _
  · exact .bind (.incr hs) fun _ => .bind (.expire hs _) fun _ => .bind (.zadd h _ _) fun _ =>
      .bind (.expire h _) fun _ => .pure _

end SlidingWindow

end ResilienceKit

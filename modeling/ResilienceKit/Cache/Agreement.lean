import ResilienceKit.Cache.Deleted

/-!
# Cache.Agreement — the two caches side by side

While Redis is reachable and on the client's clock, the two caches hold the same integers under the same
deadlines (`Matched`), as long as the lifetimes and the sums are in the range of the server, no operation
comes at the very deadline of its key, and no `incr` with a lifetime finds a stored `0`: the reply does not
tell that from a key it has just created.
-/

namespace ResilienceKit

open Mealy (Timed Clocked exec_append exec_cons)
open Cache Redis Code RedisHealth

namespace RedisAsyncCache

open CacheCalls (Await Result)

/-- Operations one after the other, while Redis never errors. -/
def quiet (cfg : Config) : Mealy World (Timed ℚ Op) Ans where
  init := {}
  step w e := apply cfg ⟨e.time, e.time⟩ {} e.ev w

/-- Both caches hold the same integer under the same deadline, or both hold nothing. -/
def Matched (cfg : Config) (now : ℚ) (key : String) (w : World) (s : InMemoryAsyncCache) : Prop :=
  (∃ (n : ℤ) (x : Option ℚ), w.db (cfg.fullKey key) = some ⟨.str (.num (n : ℚ)), x⟩ ∧
      s.store key = some (.int n, x)) ∨
    (visible now w.db (cfg.fullKey key) = none ∧ s.Gone now key)

/-- A healthy client whose server matches the other cache in every key. -/
structure Paired (cfg : Config) (now : ℚ) (w : World) (s : InMemoryAsyncCache) : Prop where
  healthy : w.flags.healthy = true
  matched : ∀ key, Matched cfg now key w s

variable {cfg : Config} {now : ℚ} {w w' : World} {s s' : InMemoryAsyncCache} {key k : String}

theorem Matched.later {t : ℚ} (h : Matched cfg now key w s) (hle : now ≤ t) : Matched cfg t key w s := by
  rcases h with h | ⟨hv, hg⟩
  · exact .inl h
  · exact .inr ⟨visible_later hv hle, hg.later hle⟩

theorem Paired.later {t : ℚ} (h : Paired cfg now w s) (hle : now ≤ t) : Paired cfg t w s :=
  ⟨h.healthy, fun key => (h.matched key).later hle⟩

/-- What changes one key only has to match there. -/
theorem Paired.of_key (key : String) (h : Paired cfg now w s) (hf : w'.flags = w.flags)
    (hw : ∀ k, k ≠ key → w'.db (cfg.fullKey k) = w.db (cfg.fullKey k))
    (hs : ∀ k, k ≠ key → s'.store k = s.store k) (hm : Matched cfg now key w' s') : Paired cfg now w' s' := by
  refine ⟨by rw [hf, h.healthy], fun k => ?_⟩
  by_cases hk : k = key
  · subst hk
    exact hm
  · rcases h.matched k with ⟨n, x, hdb, hst⟩ | ⟨hv, hg⟩
    · exact .inl ⟨n, x, by rw [hw k hk, hdb], by rw [hs k hk, hst]⟩
    · refine .inr ⟨?_, hg.congr (hs k hk)⟩
      unfold visible at hv ⊢
      rw [hw k hk, hv]

/-- Off its deadline, an entry is there for both or for neither. -/
theorem Matched.seen (h : Matched cfg now key w s)
    (hoff : ∀ e, w.db (cfg.fullKey key) = some e → e.expireAt ≠ some now) :
    (∃ (n : ℤ) (x : Option ℚ), visible now w.db (cfg.fullKey key) = some ⟨.str (.num (n : ℚ)), x⟩ ∧
        s.store key = some (.int n, x) ∧ InMemoryAsyncCache.fresh now x = true) ∨
      (visible now w.db (cfg.fullKey key) = none ∧ s.Gone now key) := by
  rcases h with ⟨n, x, hdb, hst⟩ | h
  · have hne := hoff _ hdb
    cases x with
    | none => exact .inl ⟨n, none, visible_eq_some.mpr ⟨hdb, rfl⟩, hst, rfl⟩
    | some d =>
      rcases lt_or_ge now d with hlt | hge
      · exact .inl ⟨n, some d, visible_eq_some.mpr ⟨hdb, live_some.mpr hlt.le⟩, hst, decide_eq_true hlt⟩
      · have hlt : d < now := lt_of_le_of_ne hge fun heq => hne (congrArg some heq)
        refine .inr ⟨visible_eq_none.mpr fun e he => ?_, fun v x hs => ?_⟩
        · rw [hdb] at he
          obtain rfl := Option.some.inj he
          exact decide_eq_false (not_le.mpr hlt)
        · rw [hst] at hs
          cases hs
          exact decide_eq_false (not_lt.mpr hge)
  · exact .inr h

/-! ### One command of a healthy client -/

theorem execute_ok {α : Type} {x : Cmd α} {a : α} {db : Db} (h : x.run w.db = .ok a db) :
    execute .none x w = (.ok a, { w with db }) := by
  unfold execute
  simp only [h]

theorem play_served {α : Type} {t : Instant} {f : Faults} {c : Await} {b : Result c}
    (hh : w.flags.healthy = true) (hs : serve cfg t f w (.await c) = (.ok b, w'))
    (fallback : CacheCalls.Py α) (orElse : Result c → CacheCalls.Py α) :
    play (serve cfg t f) w (guarded cfg.probeInterval (await c) fallback orElse) =
      play (serve cfg t f) w' (orElse b) := by
  have hserve : serve cfg t f w .healthy = (true, w) := by rw [serve, hh]
  rw [play_guarded_healthy hserve, play_degrading, play_await, hs]

section Ops

variable (hh : w.flags.healthy = true)
include hh

theorem apply_get {v : Option Scalar} {db : Db}
    (hrun : (getStr now (cfg.fullKey key)).run w.db = .ok v db) :
    apply cfg ⟨now, now⟩ {} (.get key) w = ({ w with db }, .got (v.map received)) := by
  have hs : serve cfg ⟨now, now⟩ {} w (.await (.get key)) = (.ok (v.map received), { w with db }) := by
    refine execute_ok ?_
    rw [bind_ok hrun]
    rfl
  rw [apply, CacheCalls.get, play_served hh hs]
  rfl

theorem apply_set {value : CacheValue} {ttl : Option ℤ} {b : Bool} {db : Db}
    (hrun : (setStr now (cfg.fullKey key) (encode value) ttl false).run w.db = .ok b db) :
    apply cfg ⟨now, now⟩ {} (.set key value ttl) w = ({ w with db }, .stored) := by
  have hs : serve cfg ⟨now, now⟩ {} w (.await (.set key value ttl false)) = (.ok b, { w with db }) :=
    execute_ok hrun
  rw [apply, CacheCalls.set, play_served hh hs]
  rfl

theorem apply_add {value : CacheValue} {ttl : Option ℤ} {b : Bool} {db : Db}
    (hrun : (setStr now (cfg.fullKey key) (encode value) ttl true).run w.db = .ok b db) :
    apply cfg ⟨now, now⟩ {} (.add key value ttl) w = ({ w with db }, .added b) := by
  have hs : serve cfg ⟨now, now⟩ {} w (.await (.set key value ttl true)) = (.ok b, { w with db }) :=
    execute_ok hrun
  rw [apply, CacheCalls.add, play_served hh hs]
  rfl

theorem apply_delete : apply cfg ⟨now, now⟩ {} (.delete key) w =
    ({ w with db := Function.update w.db (cfg.fullKey key) none }, .deleted) := by
  obtain ⟨n, hrun⟩ := del_ok now (cfg.fullKey key) w.db
  have hs : serve cfg ⟨now, now⟩ {} w (.await (.delete key)) =
      (.ok n, { w with db := Function.update w.db (cfg.fullKey key) none }) := execute_ok hrun
  rw [apply, CacheCalls.delete, play_served hh hs]
  rfl

end Ops

/-- The command of `incr` adds the amount, whatever its sign. -/
theorem play_change {amount n : ℤ} {db : Db} (hlow : -2 ^ 63 < amount) (hhigh : amount < 2 ^ 63)
    (hrun : (addInt now (cfg.fullKey key) amount).run w.db = .ok n db) :
    play (serve cfg ⟨now, now⟩ {}) w (CacheCalls.change key amount) = ({ w with db }, .ok n) := by
  unfold CacheCalls.change
  split_ifs with hpos
  · have hcmd : (incrby now (cfg.fullKey key) amount).run w.db = .ok n db := by
      rw [incrby, if_pos ⟨by omega, hhigh⟩, hrun]
    rw [play_await, serve, execute_ok hcmd]
  · have hcmd : (decrby now (cfg.fullKey key) (-amount)).run w.db = .ok n db := by
      have hfits : Fits (-amount) := ⟨by omega, by omega⟩
      rw [decrby, if_neg (not_not.mpr hfits), if_neg (by omega), neg_neg, hrun]
    rw [play_await, serve, execute_ok hcmd]

/-- `incr` of an existing key, or without a lifetime. -/
theorem apply_incr {amount n : ℤ} {ttl : Option ℤ} {db : Db} (hlow : -2 ^ 63 < amount)
    (hhigh : amount < 2 ^ 63) (hrun : (addInt now (cfg.fullKey key) amount).run w.db = .ok n db)
    (hskip : ttl ≠ none → n ≠ amount) :
    apply cfg ⟨now, now⟩ {} (.incr key amount ttl) w = ({ w with db }, .counted n) := by
  rw [apply, CacheCalls.incr, play_bind, play_change hlow hhigh hrun]
  cases ttl with
  | none => rfl
  | some seconds =>
    simp only [if_neg (hskip (by simp))]
    rfl

/-- `incr` that takes the key for a new one. -/
theorem apply_incr_expire {amount seconds : ℤ} {m : ℕ} {db db' : Db} (hlow : -2 ^ 63 < amount)
    (hhigh : amount < 2 ^ 63) (hrun : (addInt now (cfg.fullKey key) amount).run w.db = .ok amount db)
    (hexp : (expire now (cfg.fullKey key) seconds).run db = .ok m db') :
    apply cfg ⟨now, now⟩ {} (.incr key amount (some seconds)) w = ({ w with db := db' }, .counted amount) := by
  have hs : serve cfg ⟨now, now⟩ {} { w with db } (.await (.expire key seconds)) =
      (.ok m, { w with db := db' }) := execute_ok hexp
  rw [apply, CacheCalls.incr, play_bind, play_change hlow hhigh hrun]
  simp only [if_true]
  rw [play_bind, play_await, hs]
  rfl

/-! ### One operation on both caches -/

/-- The answers agree; of a `get` only whether it found anything is compared. -/
def SameAns : Ans → Ans → Prop
  | .got v, .got v' => v.isNone = v'.isNone
  | a, a' => a = a'

/-- The values stored are integers. -/
def Integral : Op → Prop
  | .set _ value _ => ∃ n, value = .int n
  | .add _ value _ => ∃ n, value = .int n
  | _ => True

/-- The key's deadline is not now. -/
def OffDeadline (cfg : Config) (t : ℚ) (key : String) (w : World) : Prop :=
  ∀ e, w.db (cfg.fullKey key) = some e → e.expireAt ≠ some t

/-- An operation that both caches take alike: off the key's deadline, lifetimes and sums in the range of the
server, and no `incr` with a lifetime on a stored `0`. -/
def Plain (cfg : Config) (t : ℚ) (w : World) : Op → Prop
  | .get key => OffDeadline cfg t key w
  | .set _ _ ttl => ExOk t ttl
  | .add key _ ttl => OffDeadline cfg t key w ∧ ExOk t ttl
  | .incr key amount ttl => OffDeadline cfg t key w ∧ (-2 ^ 63 < amount ∧ amount < 2 ^ 63) ∧
      (∀ (n : ℤ) x, visible t w.db (cfg.fullKey key) = some ⟨.str (.num (n : ℚ)), x⟩ →
        Fits n ∧ Fits (n + amount) ∧ (ttl ≠ none → n ≠ 0)) ∧
      (visible t w.db (cfg.fullKey key) = none → ∀ seconds, ttl = some seconds → Expirable t seconds)
  | .delete _ => True

section Step

variable {t : ℚ}

theorem Paired.put (h : Paired cfg t w s) {n : ℤ} {x : Option ℚ} :
    Paired cfg t { w with db := Function.update w.db (cfg.fullKey key) (some ⟨.str (.num (n : ℚ)), x⟩) }
      ⟨Function.update s.store key (some (.int n, x))⟩ := by
  refine h.of_key key rfl (fun k hk => ?_) (fun k hk => ?_) (.inl ⟨n, x, ?_, ?_⟩)
  · exact Function.update_of_ne (fun he => hk (Config.fullKey_inj.mp he)) _ _
  · exact Function.update_of_ne hk _ _
  · exact Function.update_self ..
  · exact Function.update_self ..

/-- Nothing is left of the key on either side. -/
theorem Paired.erase (h : Paired cfg t w s) {db : Db} {s' : InMemoryAsyncCache}
    (hdb : ∀ k, k ≠ key → db (cfg.fullKey k) = w.db (cfg.fullKey k))
    (hs : ∀ k, k ≠ key → s'.store k = s.store k) (hv : visible t db (cfg.fullKey key) = none)
    (hg : s'.Gone t key) : Paired cfg t { w with db } s' :=
  h.of_key key rfl hdb hs (.inr ⟨hv, hg⟩)

theorem Paired.get (h : Paired cfg t w s) (hoff : OffDeadline cfg t key w) :
    SameAns ((quiet cfg).out w ⟨t, .get key⟩) (InMemoryAsyncCache.cache.out s ⟨t, .get key⟩) ∧
      Paired cfg t ((quiet cfg).next w ⟨t, .get key⟩) (InMemoryAsyncCache.cache.next s ⟨t, .get key⟩) := by
  unfold Mealy.out Mealy.next
  simp only [quiet, InMemoryAsyncCache.cache]
  rcases (h.matched key).seen hoff with ⟨n, x, hv, hst, hfresh⟩ | ⟨hv, hg⟩
  · rw [apply_get h.healthy (getStr_some hv)]
    have hmem : InMemoryAsyncCache.get t key s = (s, some (.int n)) := by
      simp [InMemoryAsyncCache.get, hst, hfresh]
    rw [hmem]
    exact ⟨rfl, h⟩
  · rw [apply_get h.healthy (getStr_none hv)]
    refine ⟨?_, h.erase (fun k hk => rfl) (fun k hk => InMemoryAsyncCache.get_other hk) hv hg.get_gone⟩
    show (none : Option CacheValue).isNone = _
    rw [hg.get_eq]

theorem Paired.set (h : Paired cfg t w s) {n : ℤ} {ttl : Option ℤ} (hex : ExOk t ttl) :
    SameAns ((quiet cfg).out w ⟨t, .set key (.int n) ttl⟩)
        (InMemoryAsyncCache.cache.out s ⟨t, .set key (.int n) ttl⟩) ∧
      Paired cfg t ((quiet cfg).next w ⟨t, .set key (.int n) ttl⟩)
        (InMemoryAsyncCache.cache.next s ⟨t, .set key (.int n) ttl⟩) := by
  unfold Mealy.out Mealy.next
  simp only [quiet, InMemoryAsyncCache.cache]
  rw [apply_set h.healthy (setStr_ok hex (encode (.int n)))]
  exact ⟨rfl, h.put⟩

theorem Paired.add (h : Paired cfg t w s) {n : ℤ} {ttl : Option ℤ} (hoff : OffDeadline cfg t key w)
    (hex : ExOk t ttl) :
    SameAns ((quiet cfg).out w ⟨t, .add key (.int n) ttl⟩)
        (InMemoryAsyncCache.cache.out s ⟨t, .add key (.int n) ttl⟩) ∧
      Paired cfg t ((quiet cfg).next w ⟨t, .add key (.int n) ttl⟩)
        (InMemoryAsyncCache.cache.next s ⟨t, .add key (.int n) ttl⟩) := by
  unfold Mealy.out Mealy.next
  simp only [quiet, InMemoryAsyncCache.cache]
  rcases (h.matched key).seen hoff with ⟨m, x, hv, hst, hfresh⟩ | ⟨hv, hg⟩
  · have hmem : InMemoryAsyncCache.add t key (.int n) ttl s = (s, false) := by
      simp [InMemoryAsyncCache.add, hst, hfresh]
    rw [apply_add h.healthy (setStr_taken hex (encode (.int n)) hv), hmem]
    exact ⟨rfl, h⟩
  · rw [apply_add h.healthy (setStr_nx hex (encode (.int n)) hv), hg.add_eq]
    exact ⟨rfl, h.put⟩

theorem Paired.delete (h : Paired cfg t w s) :
    SameAns ((quiet cfg).out w ⟨t, .delete key⟩) (InMemoryAsyncCache.cache.out s ⟨t, .delete key⟩) ∧
      Paired cfg t ((quiet cfg).next w ⟨t, .delete key⟩)
        (InMemoryAsyncCache.cache.next s ⟨t, .delete key⟩) := by
  unfold Mealy.out Mealy.next
  simp only [quiet, InMemoryAsyncCache.cache]
  rw [apply_delete h.healthy]
  refine ⟨rfl, h.erase (fun k hk => ?_) (fun k hk => InMemoryAsyncCache.delete_other hk)
    (visible_none (Function.update_self ..)) (InMemoryAsyncCache.delete_gone _ _ _)⟩
  exact Function.update_of_ne (fun he => hk (Config.fullKey_inj.mp he)) _ _

theorem Paired.incr_present (h : Paired cfg t w s) {amount n : ℤ} {x : Option ℚ} {ttl : Option ℤ}
    (hlow : -2 ^ 63 < amount) (hhigh : amount < 2 ^ 63)
    (hv : visible t w.db (cfg.fullKey key) = some ⟨.str (.num (n : ℚ)), x⟩)
    (hst : s.store key = some (.int n, x)) (hfresh : InMemoryAsyncCache.fresh t x = true) (hn : Fits n)
    (hsum : Fits (n + amount)) (hzero : ttl ≠ none → n ≠ 0) :
    SameAns ((quiet cfg).out w ⟨t, .incr key amount ttl⟩)
        (InMemoryAsyncCache.cache.out s ⟨t, .incr key amount ttl⟩) ∧
      Paired cfg t ((quiet cfg).next w ⟨t, .incr key amount ttl⟩)
        (InMemoryAsyncCache.cache.next s ⟨t, .incr key amount ttl⟩) := by
  have hdeadline : deadline t w.db (cfg.fullKey key) = x := by
    rw [deadline, hv]
    rfl
  have hrun := addInt_ok (readInt_some hn hv) hsum
  rw [hdeadline] at hrun
  have hmem : InMemoryAsyncCache.incr t key amount ttl s =
      (⟨Function.update s.store key (some (.int (n + amount), x))⟩, .ok (n + amount)) := by
    simp [InMemoryAsyncCache.incr, InMemoryAsyncCache.base, hst, hfresh]
  unfold Mealy.out Mealy.next
  simp only [quiet, InMemoryAsyncCache.cache]
  rw [apply_incr hlow hhigh hrun fun hne => by have := hzero hne; omega, hmem]
  exact ⟨rfl, h.put⟩

theorem Paired.incr_absent (h : Paired cfg t w s) {amount : ℤ} {ttl : Option ℤ}
    (hlow : -2 ^ 63 < amount) (hhigh : amount < 2 ^ 63) (hv : visible t w.db (cfg.fullKey key) = none)
    (hg : s.Gone t key) (hex : ∀ seconds, ttl = some seconds → Expirable t seconds) :
    SameAns ((quiet cfg).out w ⟨t, .incr key amount ttl⟩)
        (InMemoryAsyncCache.cache.out s ⟨t, .incr key amount ttl⟩) ∧
      Paired cfg t ((quiet cfg).next w ⟨t, .incr key amount ttl⟩)
        (InMemoryAsyncCache.cache.next s ⟨t, .incr key amount ttl⟩) := by
  have hdeadline : deadline t w.db (cfg.fullKey key) = none := by
    rw [deadline, hv]
    rfl
  have hsum : Fits (0 + amount) := by
    rw [zero_add]
    exact ⟨hlow.le, hhigh⟩
  have hrun := addInt_ok (readInt_none hv) hsum
  rw [hdeadline, zero_add] at hrun
  have hmem : InMemoryAsyncCache.incr t key amount ttl s =
      (⟨Function.update s.store key (some (.int amount, InMemoryAsyncCache.expires t ttl))⟩, .ok amount) := by
    simp [InMemoryAsyncCache.incr, hg.base_eq]
  unfold Mealy.out Mealy.next
  simp only [quiet, InMemoryAsyncCache.cache]
  rw [hmem]
  cases ttl with
  | none =>
    rw [apply_incr hlow hhigh hrun fun hne => absurd rfl hne]
    exact ⟨rfl, h.put⟩
  | some seconds =>
    set db₁ : Db := Function.update w.db (cfg.fullKey key) (some ⟨.str (.num (amount : ℚ)), none⟩) with hdb₁
    have hv₁ : visible t db₁ (cfg.fullKey key) = some ⟨.str (.num (amount : ℚ)), none⟩ :=
      visible_update_self rfl
    rcases le_or_gt seconds 0 with hle | hpos
    · -- the deadline is past: `EXPIRE` deletes the key at once
      rw [apply_incr_expire hlow hhigh hrun (expire_past hv₁ (hex seconds rfl) hle)]
      refine ⟨rfl, h.erase (fun k hk => ?_) (fun k hk => Function.update_of_ne hk _ _)
        (visible_none (Function.update_self ..)) fun v x hs => ?_⟩
      · have hne : cfg.fullKey k ≠ cfg.fullKey key := fun he => hk (Config.fullKey_inj.mp he)
        rw [Function.update_of_ne hne, hdb₁, Function.update_of_ne hne]
      · have hs' : (CacheValue.int amount, InMemoryAsyncCache.expires t (some seconds)) = (v, x) := by
          simpa using hs
        cases hs'
        have hq : (seconds : ℚ) ≤ 0 := by exact_mod_cast hle
        exact decide_eq_false (not_lt.mpr (by linarith))
    · rw [apply_incr_expire hlow hhigh hrun (expire_ok hv₁ (hex seconds rfl) hpos), hdb₁,
        Function.update_idem]
      exact ⟨rfl, h.put⟩

/-- **Step lemma**: a plain operation gives the same answer on both sides and keeps them matched. -/
theorem Paired.step (h : Paired cfg t w s) {op : Op} (hi : Integral op) (hp : Plain cfg t w op) :
    SameAns ((quiet cfg).out w ⟨t, op⟩) (InMemoryAsyncCache.cache.out s ⟨t, op⟩) ∧
      Paired cfg t ((quiet cfg).next w ⟨t, op⟩) (InMemoryAsyncCache.cache.next s ⟨t, op⟩) := by
  cases op with
  | get key => exact h.get hp
  | set key value ttl =>
    obtain ⟨n, rfl⟩ := hi
    exact h.set hp
  | add key value ttl =>
    obtain ⟨n, rfl⟩ := hi
    exact h.add hp.1 hp.2
  | incr key amount ttl =>
    obtain ⟨hoff, ⟨hlow, hhigh⟩, hpresent, habsent⟩ := hp
    rcases (h.matched key).seen hoff with ⟨n, x, hv, hst, hfresh⟩ | ⟨hv, hg⟩
    · obtain ⟨hn, hsum, hzero⟩ := hpresent n x hv
      exact h.incr_present hlow hhigh hv hst hfresh hn hsum hzero
    · exact h.incr_absent hlow hhigh hv hg (habsent hv)
  | delete key => exact h.delete

end Step

/-! ### Whole runs -/

/-- At every operation of the run both caches give the same answer, and after it they hold the same integers
under the same deadlines. -/
def Agreement (cfg : Config) (es : List (Timed ℚ Op)) : Prop :=
  Mealy.Agree (quiet cfg) InMemoryAsyncCache.cache
    (fun r r' => SameAns r.out r'.out ∧ ∀ key, Matched cfg r.ev.time key r.post r'.post)
    (quiet cfg).init InMemoryAsyncCache.cache.init es

theorem paired_init (cfg : Config) (t : ℚ) :
    Paired cfg t (quiet cfg).init InMemoryAsyncCache.cache.init :=
  ⟨rfl, fun _ => .inr ⟨visible_none rfl, InMemoryAsyncCache.gone_of_none rfl⟩⟩

/-- For every configuration and every run of integer operations on a clock that does not go back: if every
operation is plain, the caches agree on every answer and on every deadline. -/
theorem backends_agree (cfg : Config) (es : List (Timed ℚ Op)) (hc : Clocked es)
    (hi : ∀ e ∈ es, Integral e.ev)
    (hp : (quiet cfg).Along (fun _ w e => Plain cfg e.time w e.ev) (quiet cfg).init es) :
    Agreement cfg es := by
  have hints : (quiet cfg).Along (fun _ _ e => Integral e.ev) (quiet cfg).init es := by
    rintro p e q rfl
    exact hi e (by simp)
  refine Mealy.agree_of_along
    (R := fun l w s => ∀ t, (∀ r ∈ l, r.ev.time ≤ t) → Paired cfg t w s)
    (fun t _ => paired_init cfg t) ?_ ((hc.along.and hints).and hp)
  rintro l w s e hR ⟨⟨hlate, hint⟩, hplain⟩
  obtain ⟨hans, hnext⟩ := (hR e.time hlate).step hint hplain
  refine ⟨⟨hans, hnext.matched⟩, fun t ht => hnext.later ?_⟩
  exact ht ((quiet cfg).record w e) (by simp)

/-- A counter with a lifetime, and one more after it is gone. -/
theorem backends_agree_counter : Agreement {} [⟨0, .incr "k" 5 (some 10)⟩, ⟨1, .incr "k" (-2) (some 60)⟩,
    ⟨11, .get "k"⟩] := by
  refine backends_agree {} _ (by decide) ?_ ?_
  · intro e he
    simp only [List.mem_cons, List.not_mem_nil, or_false] at he
    rcases he with rfl | rfl | rfl <;> trivial
  · refine Mealy.Along.concat (Mealy.Along.concat (Mealy.Along.concat Mealy.Along.nil ?_) ?_) ?_
    · refine ⟨fun e he => ?_, by norm_num, fun n x hv => ?_, fun _ seconds hs => ?_⟩
      · cases he
      · cases hv
      · obtain rfl := Option.some.inj hs
        decide +kernel
    · have hdb : ((quiet {}).exec (quiet {}).init [⟨0, .incr "k" 5 (some 10)⟩]).db "k" =
          some ⟨.str (.num ((5 : ℤ) : ℚ)), some 10⟩ := by
        with_unfolding_all rfl
      have hv : visible 1 ((quiet {}).exec (quiet {}).init [⟨0, .incr "k" 5 (some 10)⟩]).db "k" =
          some ⟨.str (.num ((5 : ℤ) : ℚ)), some 10⟩ :=
        visible_eq_some.mpr ⟨hdb, by decide +kernel⟩
      refine ⟨fun e he => ?_, by norm_num, fun n x hn => ?_, fun hnone => ?_⟩
      · obtain rfl := Option.some.inj (hdb.symm.trans he)
        decide +kernel
      · have heq := Option.some.inj (hv.symm.trans hn)
        have hfive : (5 : ℚ) = n := by simpa using congrArg Redis.Entry.val heq
        obtain rfl : (5 : ℤ) = n := by exact_mod_cast hfive
        decide +kernel
      · cases hv.symm.trans hnone
    · have hdb : ((quiet {}).exec (quiet {}).init
          [⟨0, .incr "k" 5 (some 10)⟩, ⟨1, .incr "k" (-2) (some 60)⟩]).db "k" =
          some ⟨.str (.num ((3 : ℤ) : ℚ)), some 10⟩ := by
        with_unfolding_all rfl
      intro e he
      obtain rfl := Option.some.inj (hdb.symm.trans he)
      decide +kernel

/-- A counter that holds `0` gets a deadline from an `incr` that should leave its expiry alone. -/
theorem zero_counter_expires :
    let es : List (Timed ℚ Op) := [⟨0, .set "k" (.int 0) none⟩, ⟨0, .incr "k" 5 (some 10)⟩, ⟨11, .get "k"⟩]
    Clocked es ∧ (∀ e ∈ es, Integral e.ev) ∧ ¬ Agreement {} es := by
  refine ⟨by decide, ?_, fun h => ?_⟩
  · intro e he
    simp only [List.mem_cons, List.not_mem_nil, or_false] at he
    rcases he with rfl | rfl | rfl
    · exact ⟨0, rfl⟩
    · trivial
    · trivial
  · have hsame := (h [⟨0, .set "k" (.int 0) none⟩, ⟨0, .incr "k" 5 (some 10)⟩] ⟨11, .get "k"⟩ [] rfl).1
    have hredis : (quiet {}).out ((quiet {}).exec (quiet {}).init
        [⟨0, .set "k" (.int 0) none⟩, ⟨0, .incr "k" 5 (some 10)⟩]) ⟨11, .get "k"⟩ = .got none := by
      decide +kernel
    have hmemory : InMemoryAsyncCache.cache.out (InMemoryAsyncCache.cache.exec InMemoryAsyncCache.cache.init
        [⟨0, .set "k" (CacheValue.int 0) none⟩, ⟨0, .incr "k" 5 (some 10)⟩]) ⟨11, .get "k"⟩ =
          .got (some (.int 5)) := by
      decide +kernel
    rw [Mealy.record_out, Mealy.record_out, hredis, hmemory] at hsame
    cases hsame

end RedisAsyncCache

end ResilienceKit

import ResilienceKit.Cache.RedisClient

/-!
# Cache.Deleted — what becomes of a deleted key

Redis and the fallback hold copies of their own, and a `delete` reaches the store that serves it.  A key of
which no copy is left (`Gone`) stays away until somebody writes it; a `delete` leaves no copy exactly when the
store that it does not reach has none (`Reaches`).
-/

namespace ResilienceKit

open Mealy (Timed Clocked exec_append exec_cons)
open Cache Redis Code RedisHealth

/-- The key an await is about. -/
def CacheCalls.Await.key : CacheCalls.Await → String
  | .get k => k
  | .set k _ _ _ => k
  | .incrby k _ => k
  | .decrby k _ => k
  | .expire k _ => k
  | .delete k => k
  | .fallbackGet k => k
  | .fallbackSet k _ _ => k
  | .fallbackAdd k _ _ => k
  | .fallbackDelete k => k

namespace RedisAsyncCache

open CacheCalls (Await Result)
open RedisAsyncBreaker (Fault)

variable {cfg : Config} {t : Instant} {f : Faults} {w w' : World} {key k : String}

theorem Config.fullKey_inj : cfg.fullKey k = cfg.fullKey key ↔ k = key := by
  unfold Config.fullKey
  split_ifs
  · rfl
  · exact String.append_right_inj _

/-- No copy of the key is left that anybody could still read. -/
structure Gone (cfg : Config) (t : Instant) (key : String) (w : World) : Prop where
  fallback : w.fallback.Gone t.monotonic key
  redis : visible t.server w.db (cfg.fullKey key) = none

namespace Gone

theorem congr (h : Gone cfg t key w) (hf : w'.fallback.store key = w.fallback.store key)
    (hd : w'.db (cfg.fullKey key) = w.db (cfg.fullKey key)) : Gone cfg t key w' := by
  refine ⟨h.fallback.congr hf, ?_⟩
  have hr := h.redis
  unfold visible at hr ⊢
  rw [hd, hr]

end Gone

/-! ### What one await does to the copies -/

/-- An await that reads or deletes. -/
def readsOnly : Await → Bool
  | .get _ => true
  | .delete _ => true
  | .fallbackGet _ => true
  | .fallbackDelete _ => true
  | _ => false

/-- An await that writes no copy of the key. -/
def Unwritten (key : String) (c : Await) : Prop := c.key ≠ key ∨ readsOnly c = true

theorem execute_fallback {α : Type} (fault : Fault) (x : Cmd α) (w : World) :
    (execute fault x w).2.fallback = w.fallback := by
  unfold execute
  cases fault with
  | none => rcases x.run w.db with ⟨a, db⟩ | ⟨e, db⟩ <;> rfl
  | before => rfl
  | after => rfl

theorem execute_db {α : Type} (fault : Fault) (x : Cmd α) (w : World) :
    (execute fault x w).2.db = w.db ∨ (execute fault x w).2.db = final (x.run w.db) := by
  unfold execute
  cases fault with
  | none => rcases x.run w.db with ⟨a, db⟩ | ⟨e, db⟩ <;> exact .inr rfl
  | before => exact .inl rfl
  | after => exact .inr rfl

theorem Gone.execute {α : Type} (h : Gone cfg t key w) (fault : Fault) {x : Cmd α}
    (hx : visible t.server (final (x.run w.db)) (cfg.fullKey key) = none) :
    Gone cfg t key (execute fault x w).2 := by
  refine ⟨?_, ?_⟩
  · rw [execute_fallback]
    exact h.fallback
  · rcases execute_db fault x w with hdb | hdb
    · rw [hdb]
      exact h.redis
    · rw [hdb]
      exact hx

theorem Gone.execute_keeps {α : Type} (h : Gone cfg t key w) (fault : Fault) {x : Cmd α}
    (hx : Keeps (cfg.fullKey key) x) : Gone cfg t key (RedisAsyncCache.execute fault x w).2 := by
  refine h.execute fault ?_
  have hr := h.redis
  unfold visible at hr ⊢
  rw [hx w.db, hr]

theorem Gone.withFallback (h : Gone cfg t key w) {m : InMemoryAsyncCache} (hm : m.Gone t.monotonic key) :
    Gone cfg t key { w with fallback := m } := ⟨hm, h.redis⟩

/-- **Step lemma** for one await. -/
theorem Gone.awaited (h : Gone cfg t key w) {c : Await} (hu : Unwritten key c) :
    Gone cfg t key (serve cfg t f w (.await c)).2 := by
  have hoff : c.key ≠ key → cfg.fullKey key ≠ cfg.fullKey c.key :=
    fun hne heq => hne (Config.fullKey_inj.mp heq).symm
  cases c with
  | get k => exact h.execute_keeps _ (.bind .getStr fun _ => .pure _)
  | set k value ex nx =>
    have hne : k ≠ key := by simpa [Unwritten, CacheCalls.Await.key, readsOnly] using hu
    exact h.execute_keeps _ (.setStr (hoff hne) _ _ _)
  | incrby k amount =>
    have hne : k ≠ key := by simpa [Unwritten, CacheCalls.Await.key, readsOnly] using hu
    exact h.execute_keeps _ (.incrby (hoff hne) _)
  | decrby k amount =>
    have hne : k ≠ key := by simpa [Unwritten, CacheCalls.Await.key, readsOnly] using hu
    exact h.execute_keeps _ (.decrby (hoff hne) _)
  | expire k ttl =>
    have hne : k ≠ key := by simpa [Unwritten, CacheCalls.Await.key, readsOnly] using hu
    exact h.execute_keeps _ (.expire (hoff hne) _)
  | delete k =>
    by_cases hk : k = key
    · subst hk
      refine h.execute _ ?_
      obtain ⟨n, hdel⟩ := del_ok t.server (cfg.fullKey k) w.db
      rw [hdel]
      exact visible_none (Function.update_self ..)
    · exact h.execute_keeps _ (.del (hoff hk))
  | fallbackGet k =>
    refine h.withFallback ?_
    by_cases hk : k = key
    · subst hk
      exact h.fallback.get_gone
    · exact h.fallback.congr (InMemoryAsyncCache.get_other (Ne.symm hk))
  | fallbackSet k value ttl =>
    have hne : k ≠ key := by simpa [Unwritten, CacheCalls.Await.key, readsOnly] using hu
    exact h.withFallback (h.fallback.congr (InMemoryAsyncCache.set_other hne.symm _ _))
  | fallbackAdd k value ttl =>
    have hne : k ≠ key := by simpa [Unwritten, CacheCalls.Await.key, readsOnly] using hu
    exact h.withFallback (h.fallback.congr (InMemoryAsyncCache.add_other hne.symm _ _))
  | fallbackDelete k =>
    refine h.withFallback ?_
    by_cases hk : k = key
    · subst hk
      exact InMemoryAsyncCache.delete_gone _ _ _
    · exact h.fallback.congr (InMemoryAsyncCache.delete_other (Ne.symm hk))

/-- The questions that leave a key gone. -/
def Harmless (key : String) (q : RedisHealth.Ask Await) : Prop := ∀ c, q = .await c → Unwritten key c

theorem Gone.asked (h : Gone cfg t key w) {q : RedisHealth.Ask Await} (hq : Harmless key q) :
    Gone cfg t key (serve cfg t f w q).2 := by
  cases q with
  | healthy => exact h
  | degradedSince => exact h
  | markDegraded exc => exact ⟨h.fallback, h.redis⟩
  | recover => exact ⟨h.fallback, h.redis⟩
  | probeDue interval => exact ⟨h.fallback, h.redis⟩
  | ping => exact h
  | await c => exact h.awaited (hq c rfl)

theorem harmless_of_flagged {q : RedisHealth.Ask Await} (h : Flagged q) : Harmless key q :=
  fun c hc => absurd hc (h c)

theorem harmless_await {c : Await} (h : Unwritten key c) : Harmless key (.await c) := by
  rintro c' hc
  obtain rfl := RedisHealth.Ask.await.inj hc
  exact h

/-- A call that does not write the key. -/
def Spares (key : String) : Request → Prop
  | .op (.set k _ _) => k ≠ key
  | .op (.add k _ _) => k ≠ key
  | .op (.incr k _ _) => k ≠ key
  | _ => True

theorem answered_fst {α : Type} (g : α → Ans) (r : World × Except PyExc α) : (answered g r).1 = r.1 := by
  obtain ⟨w, _ | _⟩ := r
  · rfl
  · rfl

/-- **Step lemma** for a call. -/
theorem Gone.next {e : Timed Instant Ev} (h : Gone cfg e.time key w) (hs : Spares key e.ev.request) :
    Gone cfg e.time key ((client cfg).next w e) := by
  have hplay : ∀ {α : Type} {x : CacheCalls.Py α}, Asks (Harmless key) x →
      Gone cfg e.time key (play (serve cfg e.time e.ev.faults) w x).1 :=
    fun hx => hx.play_invariant (fun s q hq hg => hg.asked hq) h
  have hflag : ∀ q : RedisHealth.Ask Await, Flagged q → (∀ i, q ≠ .probeDue i) → Harmless key q :=
    fun q hq _ => harmless_of_flagged hq
  have hprobe : Harmless key (.probeDue cfg.probeInterval) := harmless_of_flagged (by simp [Flagged])
  have hoff : ∀ {c : Await}, c.key ≠ key → Asks (Harmless key) (await c : CacheCalls.Py (Result c)) :=
    fun hne => asks_await (harmless_await (.inl hne))
  have hread : ∀ c : Await, readsOnly c = true → Asks (Harmless key) (await c : CacheCalls.Py (Result c)) :=
    fun c hc => asks_await (harmless_await (.inr hc))
  obtain ⟨t, req, f⟩ := e
  cases req with
  | op op =>
    show Gone cfg t key (apply cfg t f op w).1
    cases op with
    | get k =>
      rw [apply, answered_fst]
      exact hplay (asks_guarded hflag hprobe (hread (.get k) rfl) (hread (.fallbackGet k) rfl) fun _ => .pure _)
    | set k value ttl =>
      rw [apply, answered_fst]
      exact hplay (asks_guarded hflag hprobe (hoff hs) (hoff hs) fun _ => .pure _)
    | add k value ttl =>
      rw [apply, answered_fst]
      exact hplay (asks_guarded hflag hprobe (hoff hs) (hoff hs) fun _ => .pure _)
    | incr k amount ttl =>
      rw [apply, answered_fst]
      refine hplay (.bind ?_ fun n => ?_)
      · unfold CacheCalls.change
        split_ifs
        · exact hoff hs
        · exact hoff hs
      · cases ttl with
        | none => exact .pure _
        | some seconds =>
          simp only
          split_ifs
          · exact .bind (hoff hs) fun _ => .pure _
          · exact .pure _
    | delete k =>
      rw [apply, answered_fst]
      exact hplay (asks_guarded hflag hprobe (hread (.delete k) rfl) (hread (.fallbackDelete k) rfl) fun _ => .pure _)
  | healthCheck =>
    have hg := hplay (asks_healthCheck hflag ("redis unreachable; alias=" ++ cfg.cacheAlias))
    simp only [Mealy.next, client]
    rcases hrun : play (serve cfg t f) w (healthCheck ("redis unreachable; alias=" ++ cfg.cacheAlias))
      with ⟨w', _ | _⟩
    · rwa [hrun] at hg
    · rwa [hrun] at hg
  | tryRecover =>
    have hg := hplay (asks_tryRecover hflag)
    simp only [Mealy.next, client]
    rcases hrun : play (serve cfg t f) w tryRecover with ⟨w', _ | _⟩
    · rwa [hrun] at hg
    · rwa [hrun] at hg

/-! ### Which store serves -/

/-- The operation goes to Redis first. -/
def primary (cfg : Config) (t : Instant) (f : Faults) (w : World) : Bool :=
  w.flags.healthy || (w.flags.probeDue cfg.probeInterval t.monotonic).1 && f.pong

theorem play_serving (cfg : Config) (t : Instant) (f : Faults) (w : World) : ∃ flags,
    play (serve cfg t f) w (serving cfg.probeInterval) = ({ w with flags }, .ok (primary cfg t f w)) := by
  unfold primary
  cases hh : w.flags.healthy with
  | true =>
    refine ⟨w.flags, ?_⟩
    have hserve : serve cfg t f w .healthy = (true, w) := by rw [serve, hh]
    rw [serving, play_ask, hserve]
    rfl
  | false =>
    have hserve : serve cfg t f w .healthy = (false, w) := by rw [serve, hh]
    have hprobe : serve cfg t f w (.probeDue cfg.probeInterval) =
        ((w.flags.probeDue cfg.probeInterval t.monotonic).1,
          { w with flags := (w.flags.probeDue cfg.probeInterval t.monotonic).2 }) := rfl
    rw [serving, play_ask, hserve]
    show ∃ flags, play (serve cfg t f) w (maybeProbe cfg.probeInterval) = _
    rw [maybeProbe, play_ask, hprobe]
    cases hdue : (w.flags.probeDue cfg.probeInterval t.monotonic).1 with
    | false => exact ⟨_, rfl⟩
    | true =>
      set w₁ : World := { w with flags := (w.flags.probeDue cfg.probeInterval t.monotonic).2 } with hw₁
      have hhealthy : serve cfg t f w₁ .healthy = (false, w₁) := by
        rw [serve, hw₁]
        simp [hh]
      show ∃ flags, play (serve cfg t f) w₁ tryRecover = _
      rw [play_tryRecover hhealthy, serve]
      cases f.pong with
      | true => exact ⟨_, rfl⟩
      | false => exact ⟨_, rfl⟩

theorem play_guarded {α β : Type} (cfg : Config) (t : Instant) (f : Faults) (w : World)
    (command : CacheCalls.Py β) (fallback : CacheCalls.Py α) (orElse : β → CacheCalls.Py α) : ∃ flags,
    play (serve cfg t f) w (guarded cfg.probeInterval command fallback orElse) =
      if primary cfg t f w then play (serve cfg t f) { w with flags } (degrading command fallback orElse)
      else play (serve cfg t f) { w with flags } fallback := by
  obtain ⟨flags, hserving⟩ := play_serving cfg t f w
  refine ⟨flags, ?_⟩
  rw [guarded, play_bind, hserving]
  simp only
  split_ifs
  · rfl
  · rfl

/-- **A gone key is not found**, whichever store answers. -/
theorem Gone.get (h : Gone cfg t key w) : (apply cfg t f (.get key) w).2 = .got none := by
  have hmiss : ∀ {w : World}, Gone cfg t key w →
      (play (serve cfg t f) w (await (Await.fallbackGet key))).2 = .ok none := by
    intro w hw
    rw [play_await]
    exact congrArg Except.ok hw.fallback.get_eq
  have hrun : ∀ db, visible t.server db (cfg.fullKey key) = none →
      (do return (← getStr t.server (cfg.fullKey key)).map received : Cmd (Option CacheValue)).run db =
        .ok none db := by
    intro db hv
    rw [bind_ok (getStr_none hv)]
    rfl
  obtain ⟨flags, hplay⟩ := play_guarded cfg t f w
    (await (Await.get key)) (await (Await.fallbackGet key)) (fun v => pure v)
  have hw : Gone cfg t key { w with flags } := ⟨h.fallback, h.redis⟩
  have hanswer : (play (serve cfg t f) w (CacheCalls.get cfg.probeInterval key)).2 = .ok none := by
    rw [CacheCalls.get, hplay]
    split_ifs
    · rw [play_degrading, play_await]
      simp only [serve, RedisAsyncCache.execute, hrun _ hw.redis]
      cases f.command with
      | none => rfl
      | before => exact hmiss ⟨h.fallback, h.redis⟩
      | after => exact hmiss ⟨h.fallback, h.redis⟩
    · exact hmiss hw
  rw [apply]
  rcases hres : play (serve cfg t f) w (CacheCalls.get cfg.probeInterval key) with ⟨w', exc | v⟩
  · rw [hres] at hanswer
    cases hanswer
  · rw [hres] at hanswer
    obtain rfl : v = none := Except.ok.inj hanswer
    rfl

/-- The `delete` leaves no copy behind: the store that it does not reach has none. -/
def Reaches (cfg : Config) (t : Instant) (f : Faults) (key : String) (w : World) : Prop :=
  if primary cfg t f w then
    match f.command with
    | .none => w.fallback.Gone t.monotonic key
    | .before => visible t.server w.db (cfg.fullKey key) = none
    | .after => True
  else visible t.server w.db (cfg.fullKey key) = none

/-- A `delete` that Redis serves, with nothing in the fallback. -/
theorem Reaches.of_fallback (hp : primary cfg t f w = true) (hf : f.command = .none)
    (hg : w.fallback.Gone t.monotonic key) : Reaches cfg t f key w := by
  rw [Reaches, if_pos hp, hf]
  exact hg

theorem Reaches.gone (h : Reaches cfg t f key w) : Gone cfg t key (apply cfg t f (.delete key) w).1 := by
  obtain ⟨flags, hplay⟩ := play_guarded cfg t f w
    (await (Await.delete key)) (await (Await.fallbackDelete key)) (fun _ => pure ())
  obtain ⟨n, hdel⟩ := del_ok t.server (cfg.fullKey key) w.db
  have hempty : visible t.server (Function.update w.db (cfg.fullKey key) none) (cfg.fullKey key) = none :=
    visible_none (Function.update_self ..)
  unfold Reaches at h
  rw [apply, answered_fst, CacheCalls.delete, hplay]
  split_ifs at h ⊢ with hp
  · rw [play_degrading, play_await]
    simp only [serve, RedisAsyncCache.execute, hdel]
    cases hf : f.command with
    | none =>
      rw [hf] at h
      exact ⟨h, hempty⟩
    | before =>
      rw [hf] at h
      exact ⟨InMemoryAsyncCache.delete_gone _ _ _, h⟩
    | after => exact ⟨InMemoryAsyncCache.delete_gone _ _ _, hempty⟩
  · exact ⟨InMemoryAsyncCache.delete_gone _ _ _, h⟩

/-! ### Whole runs -/

theorem Gone.later {t' : Instant} (h : Gone cfg t key w) (hle : t ≤ t') : Gone cfg t' key w :=
  ⟨h.fallback.later hle.2, visible_later h.redis hle.1⟩

/-- A key that is gone stays away through calls that spare it. -/
theorem Gone.run {es : List (Timed Instant Ev)} (h : Gone cfg t key w) (hs : ∀ e ∈ es, Spares key e.ev.request)
    (hc : es.Pairwise fun a b => a.time ≤ b.time) (ht : ∀ e ∈ es, t ≤ e.time) {t' : Instant} (hle : t ≤ t')
    (ht' : ∀ e ∈ es, e.time ≤ t') : Gone cfg t' key ((client cfg).exec w es) := by
  induction es generalizing t w with
  | nil => exact h.later hle
  | cons e es ih =>
    obtain ⟨hfirst, hrest⟩ := List.pairwise_cons.mp hc
    rw [exec_cons]
    refine ih ((h.later (ht e (by simp))).next (hs e (by simp))) (fun a ha => hs a (by simp [ha])) hrest
      (fun a ha => hfirst a ha) (ht' e (by simp)) fun a ha => ht' a (by simp [ha])

/-- After a `delete` every `get` of the key finds nothing until the key is written. -/
def StaysDeleted (cfg : Config) (es : List (Timed Instant Ev)) : Prop :=
  ∀ key p d mid g q, es = p ++ d :: (mid ++ g :: q) → d.ev.request = .op (.delete key) →
    g.ev.request = .op (.get key) → (∀ e ∈ mid, Spares key e.ev.request) →
      (client cfg).out ((client cfg).exec (client cfg).init (p ++ d :: mid)) g = .ans (.got none)

/-- For every client and every run, with any faults and recoveries: if every `delete` finds no copy of its
key in the store that it does not reach, a deleted key stays deleted. -/
theorem deleted_stays_deleted (cfg : Config) (es : List (Timed Instant Ev)) (hc : Clocked es)
    (hr : (client cfg).Along (fun _ w e => ∀ key, e.ev.request = .op (.delete key) →
      Reaches cfg e.time e.ev.faults key w) (client cfg).init es) : StaysDeleted cfg es := by
  rintro key p d mid g q rfl hd hg hs
  have hgone : Gone cfg d.time key ((client cfg).next ((client cfg).exec (client cfg).init p) d) := by
    have hreach := hr p d _ rfl key hd
    obtain ⟨t, req, f⟩ := d
    obtain rfl : req = .op (.delete key) := hd
    exact hreach.gone
  obtain ⟨-, htail, -⟩ := List.pairwise_append.mp hc
  obtain ⟨hfirst, hrest⟩ := List.pairwise_cons.mp htail
  obtain ⟨hmid, -, hlast⟩ := List.pairwise_append.mp hrest
  have hnow := hgone.run hs hmid (fun e he => hfirst e (List.mem_append_left _ he)) (hfirst g (by simp))
    fun e he => hlast e he g (by simp)
  rw [exec_append, exec_cons]
  obtain ⟨t, req, f⟩ := g
  obtain rfl : req = .op (.get key) := hg
  exact congrArg Out.ans hnow.get

theorem deleted_stays_deleted_served : StaysDeleted {} [⟨⟨0, 0⟩, ⟨.op (.set "jwt" (.int 1) (some 60)), {}⟩⟩,
    ⟨⟨1, 1⟩, ⟨.op (.delete "jwt"), {}⟩⟩, ⟨⟨2, 2⟩, ⟨.op (.get "jwt"), { command := .before }⟩⟩] := by
  refine deleted_stays_deleted {} _ (by decide) ?_
  refine Mealy.Along.concat (Mealy.Along.concat (Mealy.Along.concat Mealy.Along.nil ?_) ?_) ?_
  · intro key hop
    cases hop
  · intro key hop
    obtain rfl : "jwt" = key := by simpa using hop
    have hp : primary {} ⟨1, 1⟩ {} ((client {}).exec (client {}).init
        [⟨⟨0, 0⟩, ⟨.op (.set "jwt" (.int 1) (some 60)), {}⟩⟩]) = true := by
      decide +kernel
    exact .of_fallback hp rfl (InMemoryAsyncCache.gone_of_none (by decide +kernel))
  · intro key hop
    cases hop

/-- A `delete` while Redis is down, and a `get` after the recovery. -/
def resurrection : List (Timed Instant Ev) :=
  [⟨⟨0, 0⟩, ⟨.op (.set "jwt" (.bytes "revoked") none), {}⟩⟩,
    ⟨⟨1, 1⟩, ⟨.op (.delete "jwt"), { command := .before }⟩⟩,
    ⟨⟨31, 31⟩, ⟨.op (.get "jwt"), {}⟩⟩]

theorem resurrected : Clocked resurrection ∧ ¬ StaysDeleted {} resurrection := by
  refine ⟨by decide, fun h => ?_⟩
  have hmiss := h "jwt" [⟨⟨0, 0⟩, ⟨.op (.set "jwt" (.bytes "revoked") none), {}⟩⟩]
    ⟨⟨1, 1⟩, ⟨.op (.delete "jwt"), { command := .before }⟩⟩ []
    ⟨⟨31, 31⟩, ⟨.op (.get "jwt"), {}⟩⟩ [] rfl rfl rfl (by simp)
  revert hmiss
  decide +kernel

end RedisAsyncCache

end ResilienceKit

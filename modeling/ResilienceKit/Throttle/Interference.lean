import ResilienceKit.Throttle.LuaRuns
import ResilienceKit.Throttle.RedisClient
import ResilienceKit.Throttle.Scopes

/-!
# Throttle.Interference — two callers' keys on one server

The script of a key writes that key and its `:__seq` counter.  As long as neither of two keys is the counter
of the other, the entries of both keep their types, so the script never fails and the decisions for a key do
not depend on the other (`Separate`).  A key that is the counter of the other meets an entry of the wrong type
and takes the client out of service.
-/

namespace ResilienceKit.RedisAsyncThrottle

open Mealy Throttle Redis SlidingWindow Code RedisHealth

/-! ### The entries keep their types -/

/-- Under the key stands a sorted set, under its counter an integer, if anything. -/
structure Typed (K : String) (db : Db) : Prop where
  zset : ∀ e, db K = some e → ∃ ms, e.val = .zset ms
  seq : ∀ e, db (seqKey K) = some e → ∃ n : ℤ, e.val = .str (.num n)

namespace Typed

variable {K : String} {db db' : Db} {now : ℚ} {us : ℕ}

theorem empty (K : String) : Typed K fun _ => none := ⟨by simp, by simp⟩

theorem congr (h : Typed K db) (hk : db' K = db K) (hs : db' (seqKey K) = db (seqKey K)) : Typed K db' :=
  ⟨fun e he => h.zset e (hk ▸ he), fun e he => h.seq e (hs ▸ he)⟩

theorem members (h : Typed K db) (now : ℚ) : ∃ ms, members? now db K = some ms := by
  unfold members?
  cases hv : visible now db K with
  | none => exact ⟨[], rfl⟩
  | some e =>
    obtain ⟨v, x⟩ := e
    obtain ⟨ms, rfl⟩ := h.zset _ (visible_eq_some.mp hv).1
    exact ⟨ms, rfl⟩

theorem counter (h : Typed K db) (now : ℚ) : ∃ n, counter? now db (seqKey K) = some n := by
  unfold counter?
  cases hv : visible now db (seqKey K) with
  | none => exact ⟨0, rfl⟩
  | some e =>
    obtain ⟨v, x⟩ := e
    obtain ⟨n, rfl⟩ := h.seq _ (visible_eq_some.mp hv).1
    exact ⟨_, if_pos (Rat.den_intCast n)⟩

theorem set (h : Typed K db) {o : Option Entry} (ho : ∀ e, o = some e → ∃ ms, e.val = .zset ms) :
    Typed K (Function.update db K o) := by
  refine ⟨fun e he => ho e ?_, fun e he => h.seq e ?_⟩
  · rwa [Function.update_self] at he
  · rwa [Function.update_of_ne (seqKey_ne K)] at he

theorem setSeq (h : Typed K db) {o : Option Entry} (ho : ∀ e, o = some e → ∃ n : ℤ, e.val = .str (.num n)) :
    Typed K (Function.update db (seqKey K) o) := by
  refine ⟨fun e he => h.zset e ?_, fun e he => ho e ?_⟩
  · rwa [Function.update_of_ne (seqKey_ne K).symm] at he
  · rwa [Function.update_self] at he

theorem setMembers (h : Typed K db) (ms : List (String × ℚ)) (x : Option ℚ) :
    Typed K (Function.update db K (zentry ms x)) := by
  refine h.set fun e he => ?_
  unfold zentry at he
  split_ifs at he
  obtain rfl := Option.some.inj he
  exact ⟨ms, rfl⟩

theorem safe_zremrangebyscore (min max : ℚ) : Safe (Typed K) (zremrangebyscore now K min max) := by
  intro db h
  obtain ⟨ms, hm⟩ := h.members now
  obtain ⟨n, hrun⟩ := zremrangebyscore_ok hm
  exact ⟨n, _, hrun, h.setMembers _ _⟩

theorem safe_zcard : Safe (Typed K) (zcard now K) := by
  intro db h
  obtain ⟨ms, hm⟩ := h.members now
  exact ⟨_, db, zcard_ok hm, h⟩

theorem safe_zadd (score : ℚ) (member : String) : Safe (Typed K) (zadd now K score member) := by
  intro db h
  obtain ⟨ms, hm⟩ := h.members now
  obtain ⟨n, hrun⟩ := zadd_ok score member hm
  exact ⟨n, _, hrun, h.setMembers _ _⟩

theorem safe_ttl (key : String) : Safe (Typed K) (ttl now key) := by
  intro db h
  obtain ⟨n, hrun⟩ := ttl_ok now key db
  exact ⟨n, db, hrun, h⟩

theorem safe_incr : Safe (Typed K) (incr now (seqKey K)) := by
  intro db h
  obtain ⟨n, hn⟩ := h.counter now
  refine ⟨_, _, incr_ok hn, h.setSeq fun e he => ?_⟩
  obtain rfl := Option.some.inj he
  exact ⟨n + 1, rfl⟩

theorem safe_expire {key : String} (hkey : key = K ∨ key = seqKey K) {seconds : ℤ} (hx : Expirable now seconds) :
    Safe (Typed K) (expire now key seconds) := by
  intro db h
  rw [expire_eq hx]
  cases hv : visible now db key with
  | none =>
    refine ⟨0, db, ?_, h⟩
    unfold setLifetime
    rw [get_bind, hv]
    rfl
  | some e =>
    have hdb := (visible_eq_some.mp hv).1
    have hset : ∀ o : Option Entry, (∀ e', o = some e' → e'.val = e.val) →
        Typed K (Function.update db key o) := by
      intro o ho
      rcases hkey with rfl | rfl
      · refine h.set fun e' he' => ?_
        rw [ho e' he']
        exact h.zset e hdb
      · refine h.setSeq fun e' he' => ?_
        rw [ho e' he']
        exact h.seq e hdb
    rcases le_or_gt seconds 0 with hs | hs
    · exact ⟨1, _, setLifetime_past hv hs, hset none (by simp)⟩
    · refine ⟨1, _, setLifetime_ok hv hs, hset _ fun e' he' => ?_⟩
      obtain rfl := Option.some.inj he'
      rfl

/-- **The script never fails** on entries of the right types, whatever the limit, while the server takes the
lifetime of the window. -/
theorem safe_script (limit : ℤ) {window : ℤ} (hx : Expirable (clock us) window) :
    Safe (Typed K) (SLIDING_WINDOW_LUA us K limit window) := by
  unfold SLIDING_WINDOW_LUA
  refine .bind (safe_zremrangebyscore _ _) fun _ => .bind safe_zcard fun count => ?_
  split
  · exact .bind (safe_ttl _) fun _ => .pure _
  · exact .bind safe_incr fun _ => .bind (safe_expire (.inr rfl) hx) fun _ =>
      .bind (safe_zadd _ _) fun _ => .bind (safe_expire (.inl rfl) hx) fun _ => .pure _

end Typed

/-- The two keys of a script. -/
def footprint (K : String) : Set String := {K, seqKey K}

theorem local_script (us : ℕ) (K : String) (limit window : ℤ) :
    Local (footprint K) (SLIDING_WINDOW_LUA us K limit window) := by
  have hK : K ∈ footprint K := .inl rfl
  have hs : seqKey K ∈ footprint K := .inr rfl
  unfold SLIDING_WINDOW_LUA
  refine .bind (.zremrangebyscore hK _ _) fun _ => .bind (.zcard hK) fun count => ?_
  split
  · exact .bind (.ttl hK) fun _ => .pure _
  · exact .bind (.incr hs) fun _ => .bind (.expire hs _) fun _ => .bind (.zadd hK _ _) fun _ =>
      .bind (.expire hK _) fun _ => .pure _

/-! ### A healthy client -/

variable {p : String} {cfg : Config} {w : World} {t : Instant}

/-- What the client makes of an answer of the server. -/
def reported (now : ℚ) : Op → Ans → Reported
  | .check _ rate, .replied r => .decided (decision now rate r)
  | .check _ _, _ => .raised ⟨.responseError, 0⟩
  | .reset _, _ => .resetDone

theorem play_eval (key : String) (rate : Rate) : play (serve p t) w (ThrottleCalls.eval key rate) =
    ({ w with db := final ((eval p t.server key rate).run w.db) },
      responded ((eval p t.server key rate).run w.db)) := by
  rw [ThrottleCalls.eval, play_bind, play_await]
  show play (serve p t) w (tryElse _ _ _) = _
  rw [play_tryElse, play_await]
  simp only [serve]
  rcases (eval p t.server key rate).run w.db with ⟨r, db⟩ | ⟨e, db⟩
  · rfl
  · rfl

theorem client_check (cfg : Config) (hh : w.flags.healthy = true) {key : String} {rate : Rate} {r : Reply} {db : Db}
    (hrun : (eval p t.server key rate).run w.db = .ok r db) :
    (client p cfg).step w ⟨t, .check key rate⟩ =
      ({ w with db := db }, .decided (decision t.now rate r)) := by
  have hserve : serve p t w .healthy = (true, w) := by rw [serve, hh]
  have hplay : play (serve p t) w (ThrottleCalls.check cfg key rate) =
      ({ w with db := db }, .ok (decision t.now rate r)) := by
    rw [ThrottleCalls.check, play_guarded_healthy hserve, play_degrading, play_eval, hrun]
    rfl
  simp only [client, hplay]

/-- A script that fails takes a healthy client out of service. -/
theorem client_check_error (hh : w.flags.healthy = true) {key : String} {rate : Rate} {e : Redis.Error}
    {db : Db} (hrun : (eval p t.server key rate).run w.db = .error e db) :
    ((client p cfg).next w ⟨t, .check key rate⟩).flags.healthy = false := by
  have hserve : serve p t w .healthy = (true, w) := by rw [serve, hh]
  have hplay : play (serve p t) w (ThrottleCalls.check cfg key rate) =
      play (serve p t) { w with flags := w.flags.markDegraded t.monotonic, db := db }
        (ThrottleCalls.degradedDecision cfg key rate) := by
    rw [ThrottleCalls.check, play_guarded_healthy hserve, play_degrading, play_eval, hrun]
    rfl
  have hflags : (play (serve p t) { w with flags := w.flags.markDegraded t.monotonic, db := db }
      (ThrottleCalls.degradedDecision cfg key rate)).1.flags = w.flags.markDegraded t.monotonic := by
    unfold ThrottleCalls.degradedDecision
    cases cfg.failMode with
    | «open» => rfl
    | closed => rfl
  have hstep : ((client p cfg).next w ⟨t, .check key rate⟩).flags = w.flags.markDegraded t.monotonic := by
    rw [← hflags, ← hplay]
    simp only [Mealy.next, client]
    rcases play (serve p t) w (ThrottleCalls.check cfg key rate) with ⟨w', _ | _⟩
    · rfl
    · rfl
  rw [hstep, Flags.markDegraded_healthy]

theorem client_reset (key : String) : (client p cfg).step w ⟨t, .reset key⟩ =
    ({ w with fallback := w.fallback.reset key,
              db := final ((del (clock t.server) (fullKey p key)).run w.db) }, .resetDone) := by
  have hplay : play (serve p t) w (ThrottleCalls.reset key) =
      ({ w with fallback := w.fallback.reset key,
                db := final ((del (clock t.server) (fullKey p key)).run w.db) }, .ok ()) := by
    rw [ThrottleCalls.reset, play_bind, play_degrading, play_await]
    rfl
  simp only [client, hplay]

/-- At `us` the server takes the lifetime of the window, if the operation sets one. -/
def Lasting (us : ℕ) (op : Op) : Prop :=
  ∀ key rate, op = .check key rate → Expirable (clock us) (pyInt rate.perSeconds)

/-- **A healthy client is its server**: while the entries of its key are of the right types, an operation
leaves the flags alone and does what the server does. -/
theorem client_healthy (cfg : Config) (hh : w.flags.healthy = true) {e : Timed Instant Op}
    (ht : Typed (fullKey p e.ev.key) w.db) (hx : Lasting e.time.server e.ev) :
    ((client p cfg).next w e).flags = w.flags ∧
      ((client p cfg).next w e).db = (throttle p).next w.db ⟨e.time.server, e.ev⟩ ∧
      (client p cfg).out w e = reported e.time.now e.ev ((throttle p).out w.db ⟨e.time.server, e.ev⟩) := by
  obtain ⟨t, op⟩ := e
  cases op with
  | check key rate =>
    obtain ⟨r, hrun⟩ : ∃ r, (eval p t.server key rate).run w.db =
        .ok r (final ((eval p t.server key rate).run w.db)) := (Typed.safe_script _ (hx key rate rfl)).ok ht
    have hout : (throttle p).out w.db ⟨t.server, .check key rate⟩ = .replied r := by
      show (answer ((eval p t.server key rate).run w.db)).2 = _
      rw [hrun]
      rfl
    rw [next_check, hout]
    unfold Mealy.next Mealy.out
    rw [client_check cfg hh hrun]
    exact ⟨rfl, rfl, rfl⟩
  | reset key =>
    unfold Mealy.next Mealy.out
    rw [client_reset]
    exact ⟨rfl, rfl, rfl⟩

/-! ### Two keys on one server -/

variable {db db' : Db} {k k' : String} {e : Timed ℕ Op}

theorem Typed.next_self (h : Typed (fullKey p e.ev.key) db) (hx : Lasting e.time e.ev) :
    Typed (fullKey p e.ev.key) ((throttle p).next db e) := by
  obtain ⟨t, op⟩ := e
  cases op with
  | check key rate =>
    rw [next_check]
    exact (Typed.safe_script _ (hx key rate rfl)).final h
  | reset key =>
    rw [next_reset]
    exact h.set (by simp)

theorem Typed.next_other (h : Typed (fullKey p k) db) (hk : e.ev.key ≠ k)
    (ha : e.ev.key ≠ seqKey k ∧ k ≠ seqKey e.ev.key) : Typed (fullKey p k) ((throttle p).next db e) := by
  obtain ⟨h1, h2⟩ := RedisAsyncThrottle.next_other (p := p) db hk ha
  exact h.congr h1 h2

theorem answer_congr {S : Set String} {r r' : EStateM.Result Redis.Error Db Reply} (h : Redis.Alike S r r') :
    (answer r).2 = (answer r').2 := by
  cases r with
  | ok a db =>
    cases r' with
    | ok a' db' => exact congrArg Ans.replied h.1
    | error e' db' => exact h.elim
  | error e db =>
    cases r' with
    | ok a' db' => exact h.elim
    | error e' db' => exact congrArg Ans.error h.1

/-- The server looks at the entries of the key only. -/
theorem server_local (h : (footprint (fullKey p e.ev.key)).EqOn db db') :
    (throttle p).out db e = (throttle p).out db' e ∧
      (footprint (fullKey p e.ev.key)).EqOn ((throttle p).next db e) ((throttle p).next db' e) := by
  obtain ⟨t, op⟩ := e
  cases op with
  | check key rate =>
    have halike : Redis.Alike (footprint (fullKey p key)) ((eval p t key rate).run db)
        ((eval p t key rate).run db') := local_script _ _ _ _ h
    refine ⟨?_, ?_⟩
    · exact answer_congr halike
    · rw [next_check, next_check]
      exact halike.eqOn
  | reset key =>
    rw [next_reset, next_reset]
    exact ⟨rfl, ((Local.assign (fullKey p key) none) h).2⟩

/-! ### Two callers of one client -/

/-- Every operation is on one of the two keys. -/
def OnKeys (k₁ k₂ : String) (es : List (Timed Instant Op)) : Prop :=
  ∀ e ∈ es, e.ev.key = k₁ ∨ e.ev.key = k₂

/-- A counter and a lifetime that fit the 64 bits of the server. -/
def InRange (us : ℕ) (K : String) (db : Db) (rate : Rate) : Prop :=
  (∀ n, counter? (clock us) db (seqKey K) = some n → n + 1 < 2 ^ 63) ∧
    -2 ^ 63 ≤ pyInt rate.perSeconds * 1000 ∧ us / 1000 + pyInt rate.perSeconds * 1000 < 2 ^ 63

theorem InRange.expirable {us : ℕ} {K : String} {rate : Rate} (h : InRange us K db rate) :
    Expirable (clock us) (pyInt rate.perSeconds) := by
  obtain ⟨-, hlow, hhigh⟩ := h
  unfold Expirable Fits
  rw [clock_floor]
  omega

/-- Every check of the run is in range. -/
def Ranged (p : String) (cfg : Config) (es : List (Timed Instant Op)) : Prop :=
  (client p cfg).Along (fun _ w e => ∀ key rate, e.ev = .check key rate →
    InRange e.time.server (fullKey p key) w.db rate) (client p cfg).init es

/-- The decisions for `k₁` do not depend on the operations on `k₂`, and neither key takes the client out of
service. -/
structure Separate (p : String) (cfg : Config) (k₁ k₂ : String) : Prop where
  decisions : ∀ es, OnKeys k₁ k₂ es → Ranged p cfg es →
    (client p cfg).answers (fun e => decide (e.ev.key = k₁)) (client p cfg).init es =
      (client p cfg).outs (client p cfg).init (es.filter fun e => decide (e.ev.key = k₁))
  healthy : ∀ es, OnKeys k₁ k₂ es → Ranged p cfg es →
    ((client p cfg).exec (client p cfg).init es).flags.healthy = true

/-- Neither key is the counter of the other. -/
def Unrelated (k₁ k₂ : String) : Prop := k₁ ≠ seqKey k₂ ∧ k₂ ≠ seqKey k₁

/-- The client of the whole run and the client of the run of `k₁` alone. -/
structure Paired (p k₁ k₂ : String) (w w' : World) : Prop where
  healthy : w.flags.healthy = true
  healthy' : w'.flags.healthy = true
  typed₁ : Typed (fullKey p k₁) w.db
  typed₂ : Typed (fullKey p k₂) w.db
  same : (footprint (fullKey p k₁)).EqOn w.db w'.db

namespace Paired

variable {k₁ k₂ : String} {w w' : World} {e : Timed Instant Op}

theorem typed' (h : Paired p k₁ k₂ w w') : Typed (fullKey p k₁) w'.db :=
  h.typed₁.congr (h.same (.inl rfl)).symm (h.same (.inr rfl)).symm

/-- **Step lemma** for the key that is observed. -/
theorem seen (h : Paired p k₁ k₂ w w') (hne : k₁ ≠ k₂) (hu : Unrelated k₁ k₂) (hk : e.ev.key = k₁)
    (hx : Lasting e.time.server e.ev) :
    (client p cfg).out w e = (client p cfg).out w' e ∧
      Paired p k₁ k₂ ((client p cfg).next w e) ((client p cfg).next w' e) := by
  subst hk
  obtain ⟨hflags, hdb, hout⟩ := client_healthy cfg h.healthy h.typed₁ hx
  obtain ⟨hflags', hdb', hout'⟩ := client_healthy cfg h.healthy' h.typed' hx
  obtain ⟨hsame, hnext⟩ := server_local (e := ⟨e.time.server, e.ev⟩) h.same
  refine ⟨by rw [hout, hout', hsame], ?_, ?_, ?_, ?_, ?_⟩
  · rw [hflags, h.healthy]
  · rw [hflags', h.healthy']
  · rw [hdb]
    exact h.typed₁.next_self (e := ⟨e.time.server, e.ev⟩) hx
  · rw [hdb]
    exact h.typed₂.next_other hne ⟨hu.1, hu.2⟩
  · rw [hdb, hdb']
    exact hnext

/-- **Step lemma** for the other key. -/
theorem unseen (h : Paired p k₁ k₂ w w') (hne : k₁ ≠ k₂) (hu : Unrelated k₁ k₂) (hk : e.ev.key = k₂)
    (hx : Lasting e.time.server e.ev) :
    Paired p k₁ k₂ ((client p cfg).next w e) w' := by
  subst hk
  obtain ⟨hflags, hdb, -⟩ := client_healthy cfg h.healthy h.typed₂ hx
  obtain ⟨h1, h2⟩ := next_other (p := p) (e := ⟨e.time.server, e.ev⟩) w.db hne.symm ⟨hu.2, hu.1⟩
  refine ⟨?_, h.healthy', ?_, ?_, ?_⟩
  · rw [hflags, h.healthy]
  · rw [hdb]
    exact h.typed₁.congr h1 h2
  · rw [hdb]
    exact h.typed₂.next_self (e := ⟨e.time.server, e.ev⟩) hx
  · rw [hdb]
    rintro x (rfl | rfl)
    · rw [h1, h.same (.inl rfl)]
    · rw [h2, h.same (.inr rfl)]

end Paired

variable {k₁ k₂ : String}

/-- **Run lemma.** -/
theorem separate_of_unrelated (hne : k₁ ≠ k₂) (hu : Unrelated k₁ k₂) : Separate p cfg k₁ k₂ := by
  have hrun : ∀ es, OnKeys k₁ k₂ es → Ranged p cfg es →
      (client p cfg).answers (fun e => decide (e.ev.key = k₁)) (client p cfg).init es =
          (client p cfg).outs (client p cfg).init (es.filter fun e => decide (e.ev.key = k₁)) ∧
        Paired p k₁ k₂ ((client p cfg).exec (client p cfg).init es)
          ((client p cfg).exec (client p cfg).init (es.filter fun e => decide (e.ev.key = k₁))) := by
    intro es hes hr
    refine outs_filter_of_erase (N := client p cfg) (fun e : Timed Instant Op => decide (e.ev.key = k₁))
      (R := fun _ => Paired p k₁ k₂) 
      (G := fun _ _ e => (e.ev.key = k₁ ∨ e.ev.key = k₂) ∧ Lasting e.time.server e.ev)
      ⟨rfl, rfl, .empty _, .empty _, Set.eqOn_refl _ _⟩ ?_ ?_ ?_
    · intro _ w w' e hp hG hk
      exact hp.seen hne hu (of_decide_eq_true hk) hG.2
    · intro _ w w' e hp hG hk
      exact hp.unseen hne hu (hG.1.resolve_left (of_decide_eq_false hk)) hG.2
    · rintro l e q rfl
      exact ⟨hes e (by simp), fun key rate h => (hr l e q rfl key rate h).expirable⟩
  exact ⟨fun es hes hr => (hrun es hes hr).1, fun es hes hr => (hrun es hes hr).2.healthy⟩

/-! ### A key and its counter -/

theorem script_wrongType {us : ℕ} {K : String} {v : Scalar} {x : Option ℚ} (limit window : ℤ)
    (hv : visible (clock us) db K = some ⟨.str v, x⟩) :
    (SLIDING_WINDOW_LUA us K limit window).run db = .error .wrongType db := by
  have hm : (zmembers (clock us) K).run db = .error .wrongType db := by
    unfold zmembers
    rw [get_bind, hv]
    rfl
  unfold SLIDING_WINDOW_LUA zremrangebyscore
  rw [EStateM.run_bind, EStateM.run_bind, hm]

theorem seqKey_seqKey_ne (K : String) : seqKey (seqKey K) ≠ K := by
  intro h
  have hl := congrArg String.length h
  have hpos : 0 < ":__seq".length := by decide
  simp only [seqKey, String.length_append] at hl
  omega

theorem eval_one (us : ℕ) (key : String) : eval p us key ⟨1, 1⟩ = SLIDING_WINDOW_LUA us (fullKey p key) 1 1 := by
  have hint : pyInt 1 = 1 := by decide
  unfold eval
  rw [hint]

/-- A check of a key and then of its counter. -/
def colliding (key : String) : List (Timed Instant Op) :=
  [⟨⟨0, 0, 0⟩, .check key ⟨1, 1⟩⟩, ⟨⟨0, 0, 0⟩, .check (seqKey key) ⟨1, 1⟩⟩]

theorem colliding_degrades (p : String) (cfg : Config) (key : String) :
    Ranged p cfg (colliding key) ∧
      ((client p cfg).exec (client p cfg).init (colliding key)).flags.healthy = false := by
  have hlimits : -2 ^ 63 ≤ pyInt 1 * 1000 ∧ ((0 : ℕ) : ℤ) / 1000 + pyInt 1 * 1000 < 2 ^ 63 := by decide
  have hm : members? (clock 0) (fun _ => none) (fullKey p key) = some [] := rfl
  have hn : counter? (clock 0) (fun _ => none) (seqKey (fullKey p key)) = some 0 := rfl
  have hx : Expirable (clock 0) 1 := (expirable_clock one_pos.le).mpr (by norm_num)
  obtain ⟨db, hrun, -, hseq⟩ := admits 1 1 hm hn hx one_pos (by simp [kept])
  rw [← eval_one] at hrun
  have hstep : (client p cfg).next (client p cfg).init ⟨⟨0, 0, 0⟩, .check key ⟨1, 1⟩⟩ =
      { (client p cfg).init with db := db } := by
    have hcheck := client_check (p := p) cfg (t := ⟨0, 0, 0⟩) (w := (client p cfg).init) rfl hrun
    exact congrArg Prod.fst hcheck
  have hv : visible (clock 0) db (fullKey p (seqKey key)) =
      some ⟨.str (.num ((0 + 1 : ℤ) : ℚ)), some (clock 0 + (1 : ℤ))⟩ := by
    rw [← seqKey_fullKey]
    refine visible_eq_some.mpr ⟨hseq, live_some.mpr ?_⟩
    norm_num [clock]
  have hwrong := script_wrongType 1 1 hv
  rw [← eval_one] at hwrong
  have hcounter : db (seqKey (fullKey p (seqKey key))) = none := by
    have hne : seqKey (fullKey p (seqKey key)) ≠ fullKey p key := by
      rw [← seqKey_fullKey]
      exact seqKey_seqKey_ne _
    have hne' : seqKey (fullKey p (seqKey key)) ≠ seqKey (fullKey p key) := by
      rw [← seqKey_fullKey]
      exact seqKey_ne _
    have hkeeps : Keeps (seqKey (fullKey p (seqKey key))) (eval p 0 key ⟨1, 1⟩) := keeps hne hne'
    have hdb := hkeeps fun _ => none
    rw [hrun] at hdb
    exact hdb
  constructor
  · refine Along.concat (Along.concat Along.nil ?_) ?_
    · intro k rate hop
      obtain ⟨rfl, rfl⟩ := Op.check.inj hop
      refine ⟨fun n hn' => ?_, hlimits⟩
      obtain rfl : (0 : ℤ) = n := Option.some.inj (hn.symm.trans hn')
      norm_num
    · intro k rate hop
      obtain ⟨rfl, rfl⟩ := Op.check.inj hop
      refine ⟨fun n hn' => ?_, hlimits⟩
      rw [exec_concat, exec_nil, hstep] at hn'
      obtain rfl : (0 : ℤ) = n := by
        simpa [counter?, visible_none hcounter] using hn'
      norm_num
  · show ((client p cfg).next ((client p cfg).next _ _) _).flags.healthy = false
    rw [hstep]
    exact client_check_error (t := ⟨0, 0, 0⟩) (w := { (client p cfg).init with db := db }) rfl hwrong

/-- For every two keys: on every interleaving of their checks and resets the decisions for the first are
those of its own run, and the client stays in service, exactly when neither key is the other followed by
`:__seq`. -/
theorem keys_separate_iff (p : String) (cfg : Config) (k₁ k₂ : String) (h : k₁ ≠ k₂) :
    Separate p cfg k₁ k₂ ↔ Unrelated k₁ k₂ := by
  refine ⟨fun hs => ⟨?_, ?_⟩, separate_of_unrelated h⟩
  · rintro rfl
    obtain ⟨hr, hdown⟩ := colliding_degrades p cfg k₂
    have hup := hs.healthy (colliding k₂) (by simp [OnKeys, colliding, Op.key]) hr
    rw [hdown] at hup
    cases hup
  · rintro rfl
    obtain ⟨hr, hdown⟩ := colliding_degrades p cfg k₁
    have hup := hs.healthy (colliding k₁) (by simp [OnKeys, colliding, Op.key]) hr
    rw [hdown] at hup
    cases hup

theorem keys_separate_iff_two_clients : Separate "throttle" {} "throttle:ip:10.0.0.1" "throttle:ip:10.0.0.2" :=
  (keys_separate_iff "throttle" {} _ _ (by decide)).mpr ⟨by decide, by decide⟩

/-- The endpoint keys of two paths are unrelated unless one path is the other followed by `:__seq`. -/
theorem unrelated_endpoint_iff (a b : String) :
    Unrelated ("throttle:endpoint:" ++ a) ("throttle:endpoint:" ++ b) ↔ Unrelated a b := by
  have hseq : ∀ x, seqKey ("throttle:endpoint:" ++ x) = "throttle:endpoint:" ++ seqKey x :=
    fun x => String.append_assoc
  have hinj : ∀ x y, "throttle:endpoint:" ++ x = "throttle:endpoint:" ++ y ↔ x = y :=
    fun x y => String.append_right_inj _
  unfold Unrelated
  rw [hseq, hseq, ne_eq, ne_eq, hinj, hinj]

/-- Two paths that a client of the service can ask for: the keys are not separate. -/
theorem endpoint_keys_interfere : ∃ k₁ k₂,
    buildKey .ENDPOINT (defaultAttrs (some "10.0.0.1") "/x") = .ok k₁ ∧
      buildKey .ENDPOINT (defaultAttrs (some "10.0.0.1") "/x:__seq") = .ok k₂ ∧ k₁ ≠ k₂ ∧
      ¬ Separate "throttle" {} k₁ k₂ := by
  refine ⟨_, _, buildKey_endpoint (by decide) _, buildKey_endpoint (by decide) _, by decide, fun h => ?_⟩
  obtain ⟨hr, hdown⟩ := colliding_degrades "throttle" {} ("throttle:endpoint:" ++ "/x")
  have hup := h.healthy (colliding ("throttle:endpoint:" ++ "/x"))
    (by simp [OnKeys, colliding, Op.key, seqKey]) hr
  rw [hdown] at hup
  cases hup

end ResilienceKit.RedisAsyncThrottle

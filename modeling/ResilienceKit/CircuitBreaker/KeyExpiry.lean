import ResilienceKit.CircuitBreaker.LuaScript

/-!
# CircuitBreaker.KeyExpiry — the deadline of the hash against the end of OPEN

Every write gives the hash a lifetime of `⌈10 * reset_timeout⌉`, which may be `0`.  `workers` keeps, beside the
keyspace, the hash that was written last, whether Redis still has it or not; `Kept` relates the two.
-/

namespace ResilienceKit.BreakerLua

open Mealy Redis

variable {cfg : BreakerConfig} {key : String} {now : ℚ} {db : Db} {ttl : ℤ}

/-! ### What an execution writes -/

/-- The hash of the last `write_state` of an execution that sees `h`. -/
def written (cfg : BreakerConfig) (now : ℚ) (action : Action) (h : Hash) : Option Hash :=
  match action with
  | .record_success | .record_failure => some (effect cfg now action h)
  | _ => if h.state = .OPEN ∧ now - h.lastFailure ≥ cfg.resetTimeout then some (checked cfg now h) else none

/-- The entry that is left of a hash written with the lifetime `ttl`. -/
def entryOf (now : ℚ) (ttl : ℤ) (h : Hash) : Option Entry :=
  if 0 < ttl then some ⟨.hash (fields h), some (now + ttl)⟩ else none

theorem wf_of_entryOf {db' : Db} {h : Hash} (hdb : db' key = entryOf now ttl h) : Wf key db' := by
  unfold entryOf at hdb
  split_ifs at hdb
  · exact .inr ⟨h, _, hdb⟩
  · exact .inl hdb

theorem write_state_entry (hw : Wf key db) (now : ℚ) (ttl : ℤ) (h : Hash) :
    ∃ db', (write_state now key ttl (vals h)).run db = .ok () db' ∧ db' key = entryOf now ttl h := by
  unfold entryOf
  rcases lt_or_ge 0 ttl with httl | httl
  · rw [if_pos httl]
    exact write_state_ok hw now httl h
  · rw [if_neg (by omega)]
    exact write_state_past hw now httl h

theorem check_entry (cfg : BreakerConfig) (hw : Wf key db) (now : ℚ) (ttl : ℤ) (h : Hash) :
    ∃ db', (check now key ttl cfg.resetTimeout (vals h)).run db = .ok (vals (checked cfg now h)) db' ∧
      if h.state = .OPEN ∧ now - h.lastFailure ≥ cfg.resetTimeout then
        db' key = entryOf now ttl (checked cfg now h) else db' = db := by
  by_cases hc : h.state = .OPEN ∧ now - h.lastFailure ≥ cfg.resetTimeout
  · obtain ⟨db', hrun, hdb'⟩ :=
      write_state_entry hw now ttl { h with state := .HALF_OPEN, successCount := 0 }
    refine ⟨db', ?_, ?_⟩
    · unfold check
      rw [if_pos ⟨vals_open.mpr hc.1, hc.2⟩, checked, if_pos hc]
      exact bind_ok hrun
    · rw [if_pos hc, checked, if_pos hc]
      exact hdb'
  · refine ⟨db, ?_, ?_⟩
    · unfold check
      rw [if_neg fun hc' => hc ⟨vals_open.mp hc'.1, hc'.2⟩, checked, if_neg hc]
      rfl
    · rw [if_neg hc]

/-- What the branch of an action leaves under the key. -/
theorem act_entry (cfg : BreakerConfig) (hw : Wf key db) (now : ℚ) (ttl : ℤ) (action : Action) (h : Hash) :
    ∃ r db', (act now key ttl cfg.failMax cfg.successThreshold cfg.resetTimeout action (vals h)).run db =
        .ok r db' ∧
      (match action with
        | .record_success | .record_failure => db' key = entryOf now ttl (acted cfg now action h)
        | .reset => db' key = none
        | _ => db' = db) ∧
      (action = .is_available → r.flag = if h.state = .OPEN then 0 else 1) := by
  cases action with
  | is_available =>
    unfold act
    dsimp only
    by_cases ho : h.state = .OPEN
    · rw [if_pos (vals_open.mpr ho), if_pos ho]
      exact ⟨_, db, rfl, rfl, fun _ => rfl⟩
    · rw [if_neg (mt vals_open.mp ho), if_neg ho]
      exact ⟨_, db, rfl, rfl, fun _ => rfl⟩
  | record_success =>
    obtain ⟨db', hrun, hdb'⟩ := write_state_entry hw now ttl (succeeded cfg h)
    unfold act
    dsimp only
    rw [success_vals, bind_ok hrun]
    exact ⟨_, db', rfl, hdb', nofun⟩
  | record_failure =>
    obtain ⟨db', hrun, hdb'⟩ := write_state_entry hw now ttl (failed cfg now h)
    unfold act
    dsimp only
    rw [failure_vals, bind_ok hrun]
    exact ⟨_, db', rfl, hdb', nofun⟩
  | reset =>
    obtain ⟨n, hdel⟩ := del_ok now key db
    unfold act
    dsimp only
    rw [bind_ok hdel]
    exact ⟨_, _, rfl, Function.update_self .., nofun⟩
  | get_stats => exact ⟨_, db, rfl, rfl, nofun⟩
  | other name => exact ⟨_, db, rfl, rfl, nofun⟩

/-- **Spec of the script**, for any lifetime: what was written last is under the key, unless its lifetime was
not positive; where nothing was written the key is as it was, or deleted. -/
theorem eval_entry (cfg : BreakerConfig) (hw : Wf key db) (now : ℚ) (action : Action) :
    (match written cfg now action (seen now key db) with
      | some h' => action ≠ .reset → (eval cfg key now action db).1 key = entryOf now (lifetime cfg) h'
      | none => action ≠ .reset → (eval cfg key now action db).1 = db) ∧
    (action = .reset → (eval cfg key now action db).1 key = none) ∧
    (action = .is_available → (eval cfg key now action db).2.flag =
      if (checked cfg now (seen now key db)).state = .OPEN then 0 else 1) := by
  obtain ⟨db₁, hrun₁, hdb₁⟩ := check_entry cfg hw now (lifetime cfg) (seen now key db)
  have hw₁ : Wf key db₁ := by
    split_ifs at hdb₁
    · exact wf_of_entryOf hdb₁
    · rwa [hdb₁]
  obtain ⟨r, db₂, hrun₂, hdb₂, hr⟩ :=
    act_entry cfg hw₁ now (lifetime cfg) action (checked cfg now (seen now key db))
  have heval : eval cfg key now action db = (db₂, r) := by
    rw [eval, BREAKER_LUA, bind_ok (read_state_ok hw now)]
    exact congrArg answer ((bind_ok hrun₁).trans hrun₂)
  rw [heval]
  refine ⟨?_, fun ha => ?_, hr⟩
  · cases action with
    | record_success => exact fun _ => hdb₂
    | record_failure => exact fun _ => hdb₂
    | reset =>
      split
      · exact fun h => absurd rfl h
      · exact fun h => absurd rfl h
    | is_available | get_stats | other =>
      replace hdb₂ : db₂ = db₁ := hdb₂
      subst hdb₂
      unfold written
      dsimp only
      split_ifs at hdb₁ ⊢ with hc
      · exact fun _ => hdb₁
      · exact fun _ => hdb₁
  · subst ha
    exact hdb₂

/-! ### The workers -/

/-- The keyspace, and the hash that was written last since the last `DEL`. -/
structure Watched where
  db : Db := fun _ => none
  last : Option Hash := none

/-- Executions of the script by any number of workers, in any order, on one clock. -/
def workers (cfg : BreakerConfig) (key : String) : Mealy Watched (Timed ℚ Action) Reply where
  init := {}
  step w e :=
    let (db, r) := eval cfg key e.time e.ev w.db
    ({ db
       last := if e.ev = .reset then none
         else (written cfg e.time e.ev (seen e.time key w.db)).or w.last }, r)

/-- An OPEN hash was written no earlier than its last failure. -/
def Past (now : ℚ) (h : Hash) : Prop := h.state = .OPEN → h.lastFailure ≤ now

theorem Past.checked {h : Hash} (hp : Past now h) : Past now (checked cfg now h) := by
  obtain he | ⟨-, -, he⟩ := checked_cases cfg now h
  · rwa [he]
  · rw [he]
    exact nofun

theorem past_empty : Past now {} := nofun

theorem Past.written {h h' : Hash} {action : Action} (hp : Past now h) (hw : written cfg now action h = some h') :
    Past now h' := by
  cases action with
  | record_success =>
    obtain rfl := Option.some.inj hw
    intro ho
    have hopen := (succeeded_open_iff cfg _).mp ho
    show (succeeded cfg (BreakerLua.checked cfg now h)).lastFailure ≤ now
    rw [succeeded_open hopen]
    exact hp.checked hopen
  | record_failure =>
    obtain rfl := Option.some.inj hw
    exact fun _ => (failed_state_cases cfg now _).1.le
  | is_available | reset | get_stats | other =>
    unfold BreakerLua.written at hw
    split_ifs at hw
    obtain rfl := Option.some.inj hw
    exact hp.checked

/-- What Redis has under the key, after writes up to `now`: nothing; the hash that was written last, which stays
at least until OPEN is over; or nothing because the lifetime of what was written last is `0`. -/
inductive Kept (cfg : BreakerConfig) (key : String) (now : ℚ) (w : Watched) : Prop
  | unwritten (hlast : w.last = none) (hdb : w.db key = none)
  | stored (h : Hash) (d : ℚ) (hlast : w.last = some h) (hpast : Past now h)
      (hdb : w.db key = some ⟨.hash (fields h), some d⟩)
      (hd : h.state = .OPEN → h.lastFailure + cfg.resetTimeout ≤ d)
  | dropped (h : Hash) (hlast : w.last = some h) (hpast : Past now h) (hdb : w.db key = none)
      (hT : cfg.resetTimeout = 0)

namespace Kept

variable {w : Watched}

theorem wf (hk : Kept cfg key now w) : Wf key w.db := by
  cases hk with
  | unwritten _ hdb => exact .inl hdb
  | stored h d _ _ hdb _ => exact .inr ⟨h, d, hdb⟩
  | dropped _ _ _ hdb _ => exact .inl hdb

theorem later {t : ℚ} (hk : Kept cfg key now w) (hle : now ≤ t) : Kept cfg key t w := by
  cases hk with
  | unwritten hlast hdb => exact .unwritten hlast hdb
  | stored h d hlast hpast hdb hd => exact .stored h d hlast (fun ho => (hpast ho).trans hle) hdb hd
  | dropped h hlast hpast hdb hT => exact .dropped h hlast (fun ho => (hpast ho).trans hle) hdb hT

theorem past_seen (hk : Kept cfg key now w) : Past now (seen now key w.db) := by
  cases hk with
  | unwritten _ hdb =>
    rw [seen_of_invisible (visible_none hdb)]
    exact past_empty
  | stored h d _ hpast hdb _ =>
    obtain he | he := Wf.seen_cases (.inr ⟨h, d, hdb⟩) now
    · rw [he, hashOf_fields hdb]
      exact hpast
    · rw [he]
      exact past_empty
  | dropped _ _ _ hdb _ =>
    rw [seen_of_invisible (visible_none hdb)]
    exact past_empty

/-- What is written stays until its OPEN is over. -/
theorem of_entryOf {h : Hash} (hT : 0 ≤ cfg.resetTimeout) (hlast : w.last = some h) (hpast : Past now h)
    (hdb : w.db key = entryOf now (lifetime cfg) h) : Kept cfg key now w := by
  unfold entryOf at hdb
  split_ifs at hdb with httl
  · refine .stored h _ hlast hpast hdb fun ho => ?_
    have hceil : cfg.resetTimeout * 10 ≤ (lifetime cfg : ℚ) := Int.le_ceil _
    have := hpast ho
    linarith
  · refine .dropped h hlast hpast hdb ?_
    have hceil : cfg.resetTimeout * 10 ≤ (lifetime cfg : ℚ) := Int.le_ceil _
    have hle : (lifetime cfg : ℚ) ≤ 0 := by exact_mod_cast not_lt.mp httl
    linarith

theorem step (hT : 0 ≤ cfg.resetTimeout) (action : Action) (hk : Kept cfg key now w) :
    Kept cfg key now ((workers cfg key).next w ⟨now, action⟩) := by
  obtain ⟨hwrote, hreset, -⟩ := eval_entry cfg hk.wf now action
  by_cases ha : action = .reset
  · exact .unwritten (if_pos ha) (hreset ha)
  · have hlast : ((workers cfg key).next w ⟨now, action⟩).last =
        (written cfg now action (seen now key w.db)).or w.last := if_neg ha
    cases hw : written cfg now action (seen now key w.db) with
    | some h' =>
      rw [hw] at hwrote hlast
      exact of_entryOf hT hlast (hk.past_seen.written hw) (hwrote ha)
    | none =>
      rw [hw, Option.none_or] at hlast
      rw [hw] at hwrote
      have hdb : ((workers cfg key).next w ⟨now, action⟩).db = w.db := hwrote ha
      cases hk with
      | unwritten hl hd => exact .unwritten (hlast.trans hl) (by rw [hdb, hd])
      | stored h d hl hpast hd hle => exact .stored h d (hlast.trans hl) hpast (by rw [hdb, hd]) hle
      | dropped h hl hpast hd hT => exact .dropped h (hlast.trans hl) hpast (by rw [hdb, hd]) hT

/-- An expired hash would not have refused any more. -/
theorem checked_of_expired {h : Hash} (hk : Kept cfg key now w) (hlast : w.last = some h)
    (hgone : visible now w.db key = none) : (checked cfg now h).state ≠ .OPEN := by
  intro ho
  have hopen := open_of_checked ho
  have hwaits : now - h.lastFailure < cfg.resetTimeout := by
    by_contra hge
    rw [checked_halfOpen hopen (not_lt.mp hge)] at ho
    cases ho
  cases hk with
  | unwritten hl _ => cases hl.symm.trans hlast
  | stored h' d hl hpast hdb hd =>
    obtain rfl := Option.some.inj (hl.symm.trans hlast)
    have hdead := visible_eq_none.mp hgone _ hdb
    have hlt : d < now := not_le.mp fun hle => by
      rw [live_some.mpr hle] at hdead
      cases hdead
    have := hd hopen
    linarith
  | dropped h' hl hpast _ hT =>
    obtain rfl := Option.some.inj (hl.symm.trans hlast)
    have := hpast hopen
    linarith

/-- The hash that was written last stays until its OPEN is over, or was over when it was written. -/
theorem expiry_of_open {h : Hash} (hk : Kept cfg key now w) (hlast : w.last = some h) (ho : h.state = .OPEN) :
    (∃ d, w.db key = some ⟨.hash (fields h), some d⟩ ∧ h.lastFailure + cfg.resetTimeout ≤ d) ∨
      (w.db key = none ∧ h.lastFailure + cfg.resetTimeout ≤ now) := by
  cases hk with
  | unwritten hl _ => cases hl.symm.trans hlast
  | stored h' d hl _ hdb hd =>
    obtain rfl := Option.some.inj (hl.symm.trans hlast)
    exact .inl ⟨d, hdb, hd ho⟩
  | dropped h' hl hpast hdb hT =>
    obtain rfl := Option.some.inj (hl.symm.trans hlast)
    have := hpast ho
    exact .inr ⟨hdb, by linarith⟩

end Kept

/-- A result that is recorded in OPEN leaves it OPEN, and its last failure is no earlier. -/
theorem written_of_open {action : Action} {h : Hash} (hp : Past now h)
    (hrec : action = .record_success ∨ action = .record_failure) (ho : (checked cfg now h).state = .OPEN) :
    ∃ g, written cfg now action h = some g ∧ g.state = .OPEN ∧ h.lastFailure ≤ g.lastFailure := by
  have hsame : checked cfg now h = h := by
    obtain he | ⟨-, -, he⟩ := checked_cases cfg now h
    · exact he
    · rw [he] at ho
      cases ho
  rw [hsame] at ho
  refine ⟨effect cfg now action h, ?_, ?_⟩
  · obtain rfl | rfl := hrec <;> rfl
  · rw [effect, hsame]
    obtain rfl | rfl := hrec
    · rw [acted, succeeded_open ho]
      exact ⟨ho, le_rfl⟩
    · rw [acted, failed_open ho]
      exact ⟨ho, hp ho⟩

/-- **Run lemma.** -/
theorem kept_run (hT : 0 ≤ cfg.resetTimeout) (key : String) {p : List (Timed ℚ Action)} {e : Timed ℚ Action}
    {q : List (Timed ℚ Action)} (h : Clocked (p ++ e :: q)) :
    Kept cfg key e.time ((workers cfg key).exec (workers cfg key).init p) := by
  induction p using List.reverseRecOn generalizing e q with
  | nil => exact .unwritten rfl rfl
  | append_singleton p a ih =>
    rw [exec_concat]
    have hle : a.time ≤ e.time := h.le_of_split (List.mem_append_right p List.mem_cons_self)
    rw [List.append_assoc] at h
    exact ((ih h).step hT a.ev).later hle

/-- **Key expiry**: an `is_available` that finds the hash expired answers what the hash that was written last would
have made it answer; and a success or a failure recorded in OPEN leaves a hash that stays until the OPEN
state it has is over. -/
theorem key_expiry_safe (cfg : BreakerConfig) (key : String) (hT : 0 ≤ cfg.resetTimeout)
    (es : List (Timed ℚ Action)) (h : Clocked es) :
    ∀ p now action q, es = p ++ ⟨now, action⟩ :: q →
      let w := (workers cfg key).exec (workers cfg key).init p
      let w' := (workers cfg key).next w ⟨now, action⟩
      (action = .is_available → ∀ g, w.last = some g → visible now w.db key = none →
        (eval cfg key now .is_available w.db).2.flag = 1 ∧ ∀ d, now ≤ d →
          (eval cfg key now .is_available
            (Function.update w.db key (some ⟨.hash (fields g), some d⟩))).2.flag = 1) ∧
      (action = .record_success ∨ action = .record_failure →
        (checked cfg now (seen now key w.db)).state = .OPEN →
        ∃ g, w'.last = some g ∧ g.state = .OPEN ∧ (seen now key w.db).lastFailure ≤ g.lastFailure ∧
          ((∃ d, w'.db key = some ⟨.hash (fields g), some d⟩ ∧ g.lastFailure + cfg.resetTimeout ≤ d) ∨
            (w'.db key = none ∧ g.lastFailure + cfg.resetTimeout ≤ now))) := by
  rintro p now action q rfl w w'
  have hk : Kept cfg key now w := kept_run hT key h
  refine ⟨?_, fun hrec ho => ?_⟩
  · rintro rfl g hlast hgone
    have hflag := fun {db : Db} (hw : Wf key db) => (eval_entry cfg hw now .is_available).2.2 rfl
    constructor
    · rw [hflag hk.wf, seen_of_invisible hgone, if_neg]
      exact nofun
    · intro d hd
      have hdb := Function.update_self key (some (Entry.mk (.hash (fields g)) (some d))) w.db
      rw [hflag (.inr ⟨g, d, hdb⟩), seen_of_live hdb hd, if_neg (hk.checked_of_expired hlast hgone)]
  · obtain ⟨g, hg, hopen, hle⟩ := written_of_open hk.past_seen hrec ho
    have hne : action ≠ .reset := by
      rintro rfl
      simp at hrec
    have hlast : w'.last = some g := by
      show (if action = .reset then none else (written cfg now action (seen now key w.db)).or w.last) = _
      rw [if_neg hne, hg]
      rfl
    exact ⟨g, hlast, hopen, hle, (hk.step hT action).expiry_of_open hlast hopen⟩

/-- A success that is recorded in OPEN after a quarter of a second leaves the hash there until the half second is over;
after five seconds the hash has expired. -/
theorem key_expiry_safe_quarter :
    let cfg : BreakerConfig := { failMax := 1, resetTimeout := 1 / 2 }
    let opened := (workers cfg "k").exec (workers cfg "k").init [⟨0, .record_failure⟩]
    let w := (workers cfg "k").next opened ⟨1 / 4, .record_success⟩
    ((eval cfg "k" 6 .is_available w.db).2.flag = 1 ∧ ∀ d, 6 ≤ d →
      (eval cfg "k" 6 .is_available
        (Function.update w.db "k" (some ⟨.hash (fields ⟨.OPEN, 1, 0, 0⟩), some d⟩))).2.flag = 1) ∧
    ∃ g, w.last = some g ∧ g.state = .OPEN ∧ 0 ≤ g.lastFailure ∧
      ∃ d, w.db "k" = some ⟨.hash (fields g), some d⟩ ∧ g.lastFailure + 1 / 2 ≤ d := by
  intro cfg opened w
  have hsafe := key_expiry_safe cfg "k" (by decide +kernel)
    [⟨0, .record_failure⟩, ⟨1 / 4, .record_success⟩, ⟨6, .is_available⟩] (by decide +kernel)
  have hgone : visible 6 w.db "k" = none := Option.isNone_iff_eq_none.mp (by decide +kernel)
  have hopen : (checked cfg (1 / 4) (seen (1 / 4) "k" opened.db)).state = .OPEN := by decide +kernel
  have hzero : (seen (1 / 4) "k" opened.db).lastFailure = 0 := by decide +kernel
  refine ⟨(hsafe [⟨0, .record_failure⟩, ⟨1 / 4, .record_success⟩] 6 .is_available [] rfl).1 rfl ⟨.OPEN, 1, 0, 0⟩
    (by decide +kernel) hgone, ?_⟩
  obtain ⟨g, hlast, hstate, hle, ⟨d, hdb, hd⟩ | ⟨hnone, -⟩⟩ :=
    (hsafe [⟨0, .record_failure⟩] (1 / 4) .record_success [⟨6, .is_available⟩] rfl).2 (.inl rfl) hopen
  · exact ⟨g, hlast, hstate, hzero ▸ hle, d, hdb, hd⟩
  · have hsome : (w.db "k").isSome = true := by decide +kernel
    have hdel : w.db "k" = none := hnone
    rw [hdel] at hsome
    cases hsome

end ResilienceKit.BreakerLua

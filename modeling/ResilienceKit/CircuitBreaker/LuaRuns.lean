import ResilienceKit.CircuitBreaker.LuaScript

/-!
# CircuitBreaker.LuaRuns — the workers' steps as moves of the hash

`HashMoved` is what one step of the overlapping workers does to the meaning of the hash: of the hash as the
script sees it, and of what is stored as long as that has not expired (`Timely`).
-/

namespace ResilienceKit.BreakerLua

open Mealy AsyncBreaker Redis

variable {V : Type} (cfg : BreakerConfig) (key : String)

/-- A recorded step of the workers. -/
abbrev Rec (V : Type) := AsyncBreaker.Rec Db V

/-- What one step can do to the hash. -/
inductive HashMoved (r : Rec V) (pre post : Hash) : Prop
  | check (hr : isReset r = false) (hv : recorded cfg r = .uncounted) (h : post = checked cfg r.ev.time pre)
  | success (hr : isReset r = false) (hv : recorded cfg r = .success)
      (h : post = succeeded cfg (checked cfg r.ev.time pre))
  | failure (hr : isReset r = false) (hv : recorded cfg r = .failure)
      (h : post = failed cfg r.ev.time (checked cfg r.ev.time pre))
  | idle (hr : isReset r = false) (hv : recorded cfg r = .uncounted) (h : post = pre)
  | reset (hr : isReset r = true) (hv : recorded cfg r = .uncounted) (h : post = {})

variable {cfg key}

/-- **Inversion** on the hash: a step keeps it well formed, and is one of the five moves of what is seen. -/
theorem seenMoved {r : Rec V} (hm : Moved (breaker cfg key) cfg r) (hw : Wf key r.pre.brk)
    (hT : 0 < cfg.resetTimeout) : Wf key r.post.brk ∧
      HashMoved cfg r (seen r.ev.time key r.pre.brk) (seen r.ev.time key r.post.brk) := by
  have heval : ∀ action, Wf key (eval cfg key r.ev.time action r.pre.brk).1 ∧
      seen r.ev.time key (eval cfg key r.ev.time action r.pre.brk).1 =
        effect cfg r.ev.time action (seen r.ev.time key r.pre.brk) := by
    intro action
    have hl := eval_ok hw hT r.ev.time action
    exact ⟨hl.wf hw, hl.seen_eq (lifetime_pos hT)⟩
  cases hm with
  | admission _ hr hv hb =>
    rw [show r.post.brk = (eval cfg key r.ev.time .is_available r.pre.brk).1 from hb]
    exact ⟨(heval _).1, .check hr hv (heval .is_available).2⟩
  | state _ hr hv hb =>
    rw [show r.post.brk = (eval cfg key r.ev.time .is_available r.pre.brk).1 from hb]
    exact ⟨(heval _).1, .check hr hv (heval .is_available).2⟩
  | success _ hr hv hb =>
    rw [show r.post.brk = (eval cfg key r.ev.time .record_success r.pre.brk).1 from hb]
    exact ⟨(heval _).1, .success hr hv (heval .record_success).2⟩
  | failure _ hr hv hb =>
    rw [show r.post.brk = (eval cfg key r.ev.time .record_failure r.pre.brk).1 from hb]
    exact ⟨(heval _).1, .failure hr hv (heval .record_failure).2⟩
  | idle hr hv hb =>
    rw [hb]
    exact ⟨hw, .idle hr hv rfl⟩
  | reset hr hv hb =>
    rw [show r.post.brk = (eval cfg key r.ev.time .reset r.pre.brk).1 from hb]
    exact ⟨(heval _).1, .reset hr hv (heval .reset).2⟩

/-- What a step leaves is live at its time, if it was before. -/
theorem fresh_post {r : Rec V} (hm : Moved (breaker cfg key) cfg r) (hw : Wf key r.pre.brk)
    (hf : Fresh key r.ev.time r.pre.brk) (hT : 0 < cfg.resetTimeout) : Fresh key r.ev.time r.post.brk := by
  have heval : ∀ action, Fresh key r.ev.time (eval cfg key r.ev.time action r.pre.brk).1 := by
    intro action
    have httl : (0 : ℚ) < lifetime cfg := by exact_mod_cast lifetime_pos hT
    rcases eval_ok hw hT r.ev.time action with hdb | ⟨hdb, -⟩ | ⟨hdb, -⟩
    · intro d hd
      rw [hdb] at hd
      obtain rfl := Option.some.inj hd
      linarith
    · intro d hd
      rw [hdb] at hd
      cases hd
    · rwa [hdb]
  cases hm with
  | admission _ _ _ hb | state _ _ _ hb | success _ _ _ hb | failure _ _ _ hb | reset _ _ hb =>
    rw [show r.post.brk = _ from hb]
    exact heval _
  | idle _ _ hb => rwa [hb]

/-- The moves of what is stored, while it has not expired. -/
theorem hashMoved {r : Rec V} (hm : Moved (breaker cfg key) cfg r) (hw : Wf key r.pre.brk)
    (hf : Fresh key r.ev.time r.pre.brk) (hT : 0 < cfg.resetTimeout) :
    Wf key r.post.brk ∧ HashMoved cfg r (hashOf key r.pre.brk) (hashOf key r.post.brk) := by
  obtain ⟨hw', hmoved⟩ := seenMoved hm hw hT
  rw [hw.seen_fresh hf, hw'.seen_fresh (fresh_post hm hw hf hT)] at hmoved
  exact ⟨hw', hmoved⟩

/-- No step of the run meets a hash that has expired. -/
def Timely (cfg : BreakerConfig) (key : String) (es : List (Timed ℚ (Ev V))) : Prop :=
  (system cfg key V).Along (fun _ s e => Fresh key e.time s.brk) (system cfg key V).init es

instance (es : List (Timed ℚ (Ev V))) : Decidable (Timely cfg key es) :=
  inferInstanceAs (Decidable (Along _ _ _ _))

/-- **Run lemma.**  The hash stays well formed. -/
theorem wf_run (hT : 0 < cfg.resetTimeout) (es : List (Timed ℚ (Ev V))) :
    Wf key ((system cfg key V).exec (system cfg key V).init es).brk :=
  log_induct (system cfg key V) (P := fun _ s => Wf key s.brk) (.inl rfl)
    (fun _ s e hw => (seenMoved (r := (system cfg key V).record s e) (moved _ _ _ _ _) hw hT).1) es

/-- With a timeout that is not positive the hash is never there. -/
theorem past_run (key : String) (hT : cfg.resetTimeout ≤ 0) (es : List (Timed ℚ (Ev V))) :
    ((system cfg key V).exec (system cfg key V).init es).brk key = none := by
  refine log_induct (system cfg key V) (P := fun _ s => s.brk key = none) rfl
    (fun _ s e hnone => ?_) es
  have hm : Moved (breaker cfg key) cfg ((system cfg key V).record s e) := moved _ _ _ _ _
  have heval := eval_past hnone hT e.time
  show ((system cfg key V).record s e).post.brk key = none
  cases hm with
  | admission _ _ _ hb => exact hb ▸ heval .is_available
  | state _ _ _ hb => exact hb ▸ heval .is_available
  | success _ _ _ hb => exact hb ▸ heval .record_success
  | failure _ _ _ hb => exact hb ▸ heval .record_failure
  | idle _ _ hb => exact hb ▸ hnone
  | reset _ _ hb => exact hb ▸ heval .reset

end ResilienceKit.BreakerLua

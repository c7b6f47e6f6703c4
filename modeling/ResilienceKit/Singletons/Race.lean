import ResilienceKit.Singletons.Discipline

/-!
# Singletons.Race — the globals in every interleaving

What sets and resets a global keeps to the discipline too, so every call does (`keeps_code`).  `getters_race` is what
the getters return in every run, and `getters_never_deadlock` that they always go on.
-/

namespace ResilienceKit.Singletons

open Locks

/-! ### Setting and resetting -/

/-- The operation stays with the globals of `l`, and with the source if `l` is the lock of the settings. -/
structure Within (l : Lock) (q : Ask) : Prop where
  grows : ∀ m a₀, Grows m (serve m q a₀).2
  frame : ∀ m a₀ l', l' ≠ l → view l' (serve m q a₀).2 = view l' m

theorem within_install {g : Global} {l : Lock} (hg : guard g = some l) (v : Val g) : Within l (.install g v) := by
  refine ⟨fun m _ => grows_of_swapped fun g' => ?_, fun m _ l' hl' => view_put ?_ m _⟩
  · by_cases h : g' = g
    · subst h
      right
      show _ < ((m.put g' _).slots g').swaps
      rw [slots_put_self]
      exact Nat.lt_succ_self _
    · exact .inl (slots_put_of_ne h m _)
  · rw [hg]
    exact fun h => hl' (Option.some.inj h).symm

theorem within_clear {which : Global → Bool} {l : Lock} (hwhich : ∀ g, which g → guard g = some l) :
    Within l (.clear which) := by
  refine ⟨fun m _ => grows_of_swapped fun g => ?_, fun m _ l' hl' => view_of_slots (fun g hg => ?_) (fun _ => rfl) rfl⟩
  · by_cases h : which g
    · exact .inr (by simp [serve, h])
    · exact .inl (by simp [serve, h])
  · have h : which g = false := by
      by_contra hw
      rw [hwhich g (by simpa using hw)] at hg
      exact hl' (Option.some.inj hg).symm
    simp [serve, h]

theorem within_setSource (source : ℕ) : Within .settings (.setSource source) :=
  ⟨fun _ _ => grows_of_swapped fun _ => .inl rfl,
    fun _ _ _ hl' => view_of_slots (fun _ _ => rfl) (fun h => absurd h hl') rfl⟩

theorem Within.does {l : Lock} {q : Ask} (hq : Within l q) {s : Mem}
    {post : Except Raised (Answer q) → List Lock → Mem → Prop}
    (hpost : ∀ t a₀, discipline.Rely [l] s t → post (.ok (serve t q a₀).1) [l] (serve t q a₀).2) :
    discipline.Does serve [l] s (ask q) post :=
  Discipline.does_act fun t ht a₀ => ⟨hq.grows t a₀,
    fun l' hl' => hq.frame t a₀ l' fun h => hl' (h ▸ List.mem_cons_self), hpost t a₀ ht⟩

/-- A section of one operation. -/
theorem Within.section {l : Lock} {q : Ask} (hq : Within l q) (hl : l ≠ .settings) (s : Mem) :
    discipline.Does serve [] s (withLock l (ask q)) fun _ held _ => held = [] ∧ True :=
  Discipline.does_withLock nofun fun _ _ _ => hq.does fun _ _ _ => ⟨rfl, fun _ _ => ⟨tidy_of_ne hl _, rfl, trivial⟩⟩

/-- The settings are tidy when nothing is cached. -/
theorem tidy_of_empty {s t : Mem} (hview : view .settings t = view .settings s)
    (hempty : (s.slots .settings).value = none) : tidy .settings (view .settings t) := by
  intro x hx
  rw [hview] at hx
  exact absurd (hempty.symm.trans hx) nofun

theorem within_clearGlobal {g : Global} {l : Lock} (hg : guard g = some l) : Within l (.clear (· = g)) := by
  refine within_clear fun g' hg' => ?_
  rw [of_decide_eq_true hg', hg]

theorem does_setSettingsSource (source : ℕ) (s : Mem) :
    discipline.Does serve [] s (setSettingsSource source) fun _ held _ => held = [] := by
  refine Discipline.does_withLock nofun fun t _ _ => Discipline.does_bind ((within_setSource source).does fun u a₀ _ =>
    ⟨fun _ _ => (within_clearGlobal rfl).does fun v a₁ _ => ⟨rfl, fun w hw => ⟨?_, rfl⟩⟩, nofun⟩)
  exact tidy_of_empty (hw.2 .settings List.mem_cons_self) rfl

theorem does_resetSettingsCache (s : Mem) :
    discipline.Does serve [] s resetSettingsCache fun _ held _ => held = [] := by
  refine Discipline.does_withLock nofun fun t _ _ => Discipline.does_bind ((within_clearGlobal rfl).does fun u a₀ _ =>
    ⟨fun _ _ => (within_setSource 0).does fun v a₁ hv => ⟨rfl, fun w hw => ⟨?_, rfl⟩⟩, nofun⟩)
  have hview : view .settings v = _ := hv.2 .settings List.mem_cons_self
  exact tidy_of_empty (hw.2 .settings List.mem_cons_self) (congrArg (fun x => x.2.value) hview)

theorem guard_of_isClient (g : Global) (h : isClient g) : guard g = some .clients := by
  cases g with
  | client url => rfl
  | _ => exact absurd h nofun

theorem guard_of_isCache (g : Global) (h : isCache g) : guard g = none := by
  cases g with
  | cache name => rfl
  | _ => exact absurd h nofun

/-- Globals without a lock are reset without one. -/
theorem does_clear_free {which : Global → Bool} (hwhich : ∀ g, which g → guard g = none) (s : Mem) :
    discipline.Does serve [] s (ask (.clear which)) fun _ held _ => held = [] ∧ True := by
  refine Discipline.does_act fun t _ a₀ => ⟨grows_of_swapped fun g => ?_, fun l _ =>
    view_of_slots (fun g hg => ?_) (fun _ => rfl) rfl, rfl, trivial⟩
  · by_cases h : which g
    · exact .inr (by simp [serve, h])
    · exact .inl (by simp [serve, h])
  · have h : which g = false := by
      by_contra hw
      rw [hwhich g (by simpa using hw)] at hg
      cases hg
    simp [serve, h]

/-- What a call promises. -/
def promise : (c : Call) → Mem → Result c → Mem → Prop
  | .get g, s, r, t => Blames s r t ∧
      ∀ v, r = .ok v → v = (t.slots g).value ∧ (v = none → (s.slots g).swaps < (t.slots g).swaps)
  | _, _, _, _ => True

theorem keeps_code : discipline.Keeps serve code promise := by
  intro c s
  cases c with
  | get g => exact (gets_getter g s).mono fun r held t hr => ⟨hr.1, hr.2.2⟩
  | setSettingsSource source => exact (does_setSettingsSource source s).mono fun _ _ _ h => ⟨h, trivial⟩
  | resetSettingsCache => exact (does_resetSettingsCache s).mono fun _ _ _ h => ⟨h, trivial⟩
  | setMetrics sink => exact (within_install (g := .metrics) rfl sink).section nofun s
  | resetMetrics => exact (within_clearGlobal (g := .metrics) (l := .metrics) rfl).section nofun s
  | setDispatcher dispatcher => exact (within_install (g := .dispatcher) rfl dispatcher).section nofun s
  | resetDispatcher => exact (within_clearGlobal (g := .dispatcher) (l := .dispatcher) rfl).section nofun s
  | resetTasks => exact (within_clearGlobal (g := .tasks) (l := .tasks) rfl).section nofun s
  | resetRedisClients => exact (within_clear guard_of_isClient).section nofun s
  | resetThrottle => exact does_clear_free (fun g hg => by rw [of_decide_eq_true hg]; rfl) s
  | resetCache => exact does_clear_free guard_of_isCache s

/-! ### Runs -/

theorem tidy_init (l : Lock) : discipline.tidy l (discipline.view l {}) := by
  cases l with
  | settings => exact nofun
  | _ => trivial

/-- **No deadlock.**  Whatever the threads have called and however their steps interleave, as long as a call has not
ended some call can go on. -/
theorem getters_never_deadlock (es : List (Ev Call Answer)) (id : ℕ) (hid : Unfinished (process es) id) :
    ∃ id', Ready (process es) id' :=
  Discipline.exists_ready tidy_init keeps_code es hid

/-- Answers of a world in which everything works; `redis` is installed. -/
def works : (q : Ask) → Answer q
  | .read _ => none
  | .store _ _ => ()
  | .install _ _ => ()
  | .clear _ => ()
  | .setSource _ => ()
  | .load => .ok ⟨0, 0, .auto, some "redis://", "noop", none, .open, {}⟩
  | .lookup _ _ _ => .nothing
  | .make _ => ⟨0, .foreign⟩
  | .findSpec => .ok true
  | .attempt _ => none
  | .enlist _ => ()

/-- `n` steps of a thread. -/
def go (id n : ℕ) : List (Ev Call Answer) := List.replicate n (.go id works)

/-- One thread is in the section of the metrics, and about to enter that of the settings, where another one is. -/
theorem getters_never_deadlock_nested : ∃ id', Ready (process ([.start 0 (.get .metrics), .start 1 (.get .settings)] ++
    go 1 3 ++ go 0 4)) id' :=
  getters_never_deadlock _ 0 ⟨_, .acquire .settings, _, rfl⟩

/-- `id` calls `get g` after `es`, and after `es'` the call has ended with `r`. -/
def Ended (es es' : List (Ev Call Answer)) (id : ℕ) (g : Global) (r : Result (.get g)) : Prop :=
  (process es).threads id = none ∧ (process (es ++ [.start id (.get g)] ++ es')).threads id = some ⟨.get g, .done r⟩

/-- It is the last event of `es'` that ends the call. -/
def Returns (es es' : List (Ev Call Answer)) (id : ℕ) (g : Global) (r : Result (.get g)) : Prop :=
  Ended es es' id g r ∧ ∀ es₁ e, es' = es₁ ++ [e] → Unfinished (process (es ++ [.start id (.get g)] ++ es₁)) id

/-- **One instance.**  If nobody has set or reset a global that has a lock, all calls of its getter that returned,
returned the same object, which stands in the global. -/
theorem instance_of_unswapped (es : List (Ev Call Answer)) {g : Global} (hg : (guard g).isSome)
    (hswaps : ((process es).mem.slots g).swaps = 0) {id : ℕ} {v : Option (Val g)}
    (hat : (process es).threads id = some ⟨.get g, .done (.ok v)⟩) :
    ∃ x, v = some x ∧ ((process es).mem.slots g).value = some x := by
  obtain ⟨es₁, es₂, rfl, hfree⟩ := exists_start es hat
  obtain ⟨es₃, es₄, rfl, -, -, hvalue⟩ := Discipline.finished tidy_init keeps_code es₁ es₂ hfree hat
  obtain ⟨hv, hnone⟩ := hvalue v rfl
  have hgrown := Discipline.grown tidy_init keeps_code (es₁ ++ [.start id (.get g)] ++ es₃) es₄
  rw [List.append_assoc _ es₃ es₄] at hgrown
  have hle := hgrown.swaps g
  have hzero : ((process (es₁ ++ [.start id (.get g)] ++ es₃)).mem.slots g).swaps = 0 :=
    Nat.le_zero.mp (hle.trans hswaps.le)
  cases v with
  | none =>
    have hlt := (hnone rfl).trans_eq hzero
    exact absurd hlt (Nat.not_lt_zero _)
  | some x =>
    obtain ⟨y, hy, hyx⟩ := hgrown.kept g x hv.symm (hzero.trans hswaps.symm)
    exact ⟨x, rfl, hyx hg ▸ hy⟩

/-- **The globals under threads.**  In every interleaving: (1) if nobody has set or reset a global that has a lock, all
calls of its getter that returned, returned the one object that stands in it; (2) a getter that has ended did so at some
event of the run, and what it returned is what stood in the global right after that event; it is `None` only if the
global was set or reset during the call, and an `AttributeError` of a `None` of `get_settings` is raised only if the
settings were; (3) while nobody is in a section of the settings, the cached instance was loaded by the installed
source. -/
theorem getters_race :
    (∀ es g, (guard g).isSome → ((process es).mem.slots g).swaps = 0 →
      ∀ id v, (process es).threads id = some ⟨.get g, .done (.ok v)⟩ →
        ∃ x, v = some x ∧ ((process es).mem.slots g).value = some x) ∧
    (∀ es es' id g r, Ended es es' id g r → ∃ es₁ es₂, es' = es₁ ++ es₂ ∧ Returns es es₁ id g r ∧
      ∀ now, now = (process (es ++ [.start id (.get g)] ++ es₁)).mem →
        (∀ v, r = .ok v → v = (now.slots g).value ∧
          (v = none → ((process es).mem.slots g).swaps < (now.slots g).swaps)) ∧
        (r = .error .attributeOfNone →
          ((process es).mem.slots .settings).swaps < (now.slots .settings).swaps)) ∧
    ∀ es, (process es).owner .settings = none → ∀ s, ((process es).mem.slots .settings).value = some s →
      s.source = (process es).mem.source := by
  refine ⟨fun es g hg hswaps id v hat => instance_of_unswapped es hg hswaps hat, fun es es' id g r hended => ?_,
    fun es hfree => Discipline.tidy_of_free tidy_init keeps_code es hfree⟩
  obtain ⟨es₁, es₂, hes, hled, hblames, hvalue⟩ := Discipline.finished tidy_init keeps_code es es' hended.1 hended.2
  refine ⟨es₁, es₂, hes, ⟨⟨hended.1, hled.1⟩, hled.2⟩, ?_⟩
  rintro now rfl
  exact ⟨hvalue, hblames⟩

/-- The settings are built, and reset before the call reads them to return them. -/
example : (process ([.start 0 (.get .settings)] ++ go 0 6 ++ [.start 1 .resetSettingsCache] ++ go 1 4 ++
    go 0 1)).threads 0 = some ⟨.get .settings, .done (.ok none)⟩ := rfl

end ResilienceKit.Singletons

import ResilienceKit.Singletons.Getters

/-!
# Singletons.Discipline — what the locks of the globals protect

`discipline` is that of Lib/Locks for this process.  Code that only builds is `Fine`: it leaves what is protected as
it is.  `Gets` is the promise of a getter: `gets_lazily` proves it once for double-checked locking, `gets_getter` for
every getter.
-/

namespace ResilienceKit.Singletons

open Locks

/-- What a lock protects. -/
@[reducible] def View : Lock → Type
  | .settings => ℕ × Slot Settings
  | .metrics => Slot Obj
  | .dispatcher => Slot Obj
  | .tasks => Slot Obj
  | .clients => String → Slot Obj
  | .recovery => List Obj

def view : (l : Lock) → Mem → View l
  | .settings, m => (m.source, m.slots .settings)
  | .metrics, m => m.slots .metrics
  | .dispatcher, m => m.slots .dispatcher
  | .tasks, m => m.slots .tasks
  | .clients, m => fun url => m.slots (.client url)
  | .recovery, m => m.roster

/-- The settings that are cached are of the source that is installed. -/
def tidy : (l : Lock) → View l → Prop
  | .settings, v => ∀ s, v.2.value = some s → s.source = v.1
  | .metrics, _ => True
  | .dispatcher, _ => True
  | .tasks, _ => True
  | .clients, _ => True
  | .recovery, _ => True

/-- Sections of the first three locks can enter those of the others. -/
def rank : Lock → ℕ
  | .metrics => 0
  | .dispatcher => 0
  | .tasks => 0
  | .settings => 1
  | .clients => 1
  | .recovery => 1

/-- A global is emptied only when it is set or reset, and one that a lock guards is not overwritten. -/
structure Grows (s t : Mem) : Prop where
  swaps : ∀ g, (s.slots g).swaps ≤ (t.slots g).swaps
  kept : ∀ g x, (s.slots g).value = some x → (s.slots g).swaps = (t.slots g).swaps →
    ∃ y, (t.slots g).value = some y ∧ ((guard g).isSome → y = x)

theorem Grows.refl (s : Mem) : Grows s s := ⟨fun _ => le_rfl, fun _ x hx _ => ⟨x, hx, fun _ => rfl⟩⟩

theorem Grows.trans {s t u : Mem} (h : Grows s t) (h' : Grows t u) : Grows s u := by
  refine ⟨fun g => (h.swaps g).trans (h'.swaps g), fun g x hx heq => ?_⟩
  have hst : (s.slots g).swaps = (t.slots g).swaps := by
    have := h.swaps g
    have := h'.swaps g
    omega
  obtain ⟨y, hy, hyx⟩ := h.kept g x hx hst
  obtain ⟨z, hz, hzy⟩ := h'.kept g y hy (hst.symm.trans heq)
  exact ⟨z, hz, fun hg => (hzy hg).trans (hyx hg)⟩

def discipline : Discipline Mem Lock where
  View := View
  view := view
  tidy := tidy
  rank := rank
  top := 2
  rank_lt l := by cases l <;> decide
  grows := Grows
  grows_refl := Grows.refl
  grows_trans := Grows.trans

/-- What a lock guards is in what it protects. -/
theorem slots_of_view {g : Global} {l : Lock} (hg : guard g = some l) {s t : Mem} (h : view l t = view l s) :
    t.slots g = s.slots g := by
  cases g <;> cases hg
  · exact congrArg Prod.snd h
  · exact h
  · exact h
  · exact h
  · exact congrFun h _

@[simp] theorem slots_put_self (m : Mem) (g : Global) (slot : Slot (Val g)) : (m.put g slot).slots g = slot :=
  Function.update_self ..

theorem slots_put_of_ne {g g' : Global} (h : g' ≠ g) (m : Mem) (slot : Slot (Val g)) :
    (m.put g slot).slots g' = m.slots g' := Function.update_of_ne h ..

/-- What a lock protects is known from the globals it guards, the source and the roster. -/
theorem view_of_slots {l : Lock} {s t : Mem} (hslots : ∀ g, guard g = some l → t.slots g = s.slots g)
    (hsource : l = .settings → t.source = s.source) (hroster : t.roster = s.roster) : view l t = view l s := by
  cases l with
  | settings => exact Prod.ext (hsource rfl) (hslots .settings rfl)
  | metrics => exact hslots .metrics rfl
  | dispatcher => exact hslots .dispatcher rfl
  | tasks => exact hslots .tasks rfl
  | clients => exact funext fun url => hslots (.client url) rfl
  | recovery => exact hroster

/-- A lock that does not guard the global does not protect it. -/
theorem view_put {g : Global} {l : Lock} (hg : guard g ≠ some l) (m : Mem) (slot : Slot (Val g)) :
    view l (m.put g slot) = view l m := by
  refine view_of_slots (fun g' hg' => slots_put_of_ne ?_ m slot) (fun _ => rfl) rfl
  rintro rfl
  exact hg hg'

/-- A value can be stored in a global that is empty, or that no lock guards. -/
theorem grows_store {g : Global} {m : Mem} (hg : (guard g).isSome → (m.slots g).value = none) (v : Val g) :
    Grows m (m.put g ⟨some v, (m.slots g).swaps⟩) := by
  refine ⟨fun g' => ?_, fun g' x hx _ => ?_⟩
  · by_cases h : g' = g
    · subst h
      rw [slots_put_self]
    · rw [slots_put_of_ne h]
  · by_cases h : g' = g
    · subst h
      refine ⟨v, by rw [slots_put_self], fun hguard => ?_⟩
      rw [hg hguard] at hx
      cases hx
    · rw [slots_put_of_ne h]
      exact ⟨x, hx, fun _ => rfl⟩

/-- What is set or reset is swapped. -/
theorem grows_of_swapped {s t : Mem}
    (h : ∀ g, t.slots g = s.slots g ∨ (s.slots g).swaps < (t.slots g).swaps) : Grows s t := by
  refine ⟨fun g => ?_, fun g x hx heq => ?_⟩
  · rcases h g with hg | hg
    · rw [hg]
    · exact hg.le
  · rcases h g with hg | hg
    · exact ⟨x, by rw [hg, hx], fun _ => rfl⟩
    · exact absurd heq hg.ne

/-! ### Getters -/

/-- `AttributeError` is raised only if the settings were set or reset in between. -/
def Blames {α : Type} (s : Mem) (r : Except Raised α) (t : Mem) : Prop :=
  r = .error .attributeOfNone → (s.slots .settings).swaps < (t.slots .settings).swaps

theorem Blames.mono {α : Type} {s s' t t' : Mem} {r : Except Raised α} (h : Blames s' r t') (hs : Grows s s')
    (ht : Grows t' t) : Blames s r t := by
  intro hr
  have := hs.swaps .settings
  have := ht.swaps .settings
  have := h hr
  omega

/-- It is the same for whatever the code would have returned. -/
theorem Blames.error {α β : Type} {s t : Mem} {r : Except Raised α} {e : Raised} (h : Blames s r t)
    (he : r = .error e) : Blames s (.error e : Except Raised β) t :=
  fun h' => h (he.trans (by rw [Except.error.inj h']))

/-- Code between two sections: it leaves what is protected as it is. -/
def Fine {α : Type} (held : List Lock) (x : M α) : Prop :=
  ∀ s, discipline.Does serve held s x fun r held' t => held' = held ∧ discipline.Rely held s t ∧ Blames s r t

/-- A getter of `g`. -/
def Gets (held : List Lock) (g : Global) (x : M (Option (Val g))) : Prop :=
  ∀ s, discipline.Does serve held s x fun r held' t => held' = held ∧ discipline.Rely held s t ∧ Blames s r t ∧
    ∀ v, r = .ok v → v = (t.slots g).value ∧ (v = none → (s.slots g).swaps < (t.slots g).swaps)

section Fine

variable {α β : Type} {held : List Lock}

theorem Fine.pure (a : α) : Fine held (Pure.pure a : M α) :=
  fun s => Discipline.does_pure ⟨rfl, .refl held s, nofun⟩

theorem Fine.throw {e : Raised} (he : e ≠ .attributeOfNone) : Fine held (MonadExcept.throw e : M α) :=
  fun s => Discipline.does_throw ⟨rfl, .refl held s, fun h => absurd (Except.error.inj h) he⟩

theorem Fine.bind {x : M α} {f : α → M β} (hx : Fine held x) (hf : ∀ a, Fine held (f a)) : Fine held (x >>= f) := by
  intro s
  refine Discipline.does_bind ((hx s).mono fun r held' t hr => ?_)
  obtain ⟨rfl, ht, hblames⟩ := hr
  refine ⟨fun a _ => (hf a t).mono fun r held'' u hu => ?_, fun e he => ⟨rfl, ht, hblames.error he⟩⟩
  obtain ⟨rfl, hu, hblames'⟩ := hu
  exact ⟨rfl, ht.trans hu, hblames'.mono ht.1 (Grows.refl u)⟩

theorem Fine.tryElse {x : M α} {handler : Raised → M β} {orElse : α → M β} (hx : Fine held x)
    (hhandler : ∀ e, e ≠ .attributeOfNone → Fine held (handler e))
    (hnone : handler .attributeOfNone = MonadExcept.throw .attributeOfNone) (horElse : ∀ a, Fine held (orElse a)) :
    Fine held (Code.tryElse x handler orElse) := by
  intro s
  refine Discipline.does_tryElse ((hx s).mono fun r held' t hr => ?_)
  obtain ⟨rfl, ht, hblames⟩ := hr
  refine ⟨fun a _ => (horElse a t).mono fun r held'' u hu => ?_, fun e he => ?_⟩
  · obtain ⟨rfl, hu, hblames'⟩ := hu
    exact ⟨rfl, ht.trans hu, hblames'.mono ht.1 (Grows.refl u)⟩
  · by_cases hnot : e = .attributeOfNone
    · subst hnot
      rw [hnone]
      exact Discipline.does_throw ⟨rfl, ht, fun _ => hblames he⟩
    · refine (hhandler e hnot t).mono fun r held'' u hu => ?_
      obtain ⟨rfl, hu, hblames'⟩ := hu
      exact ⟨rfl, ht.trans hu, hblames'.mono ht.1 (Grows.refl u)⟩

/-- The operation changes nothing but the count of the objects. -/
def Quiet (q : Ask) : Prop := ∀ m a₀, (serve m q a₀).2 = { m with made := (serve m q a₀).2.made }

theorem view_of_made (l : Lock) (m : Mem) (n : ℕ) : view l { m with made := n } = view l m := by
  cases l <;> rfl

theorem Fine.ask {q : Ask} (hq : Quiet q) : Fine held (Singletons.ask q) := by
  intro s
  refine Discipline.does_act fun t ht a₀ => ?_
  have hview : ∀ l, view l (serve t q a₀).2 = view l t := fun l => (hq t a₀).symm ▸ view_of_made l t _
  have hgrows : Grows t (serve t q a₀).2 := grows_of_swapped fun g => .inl (by rw [hq])
  exact ⟨hgrows, fun l _ => hview l, rfl, ht.trans ⟨hgrows, fun l _ => hview l⟩, nofun⟩

theorem quiet_lookup (group name : String) (args : List String) : Quiet (.lookup group name args) := fun _ _ => rfl

theorem quiet_make (made : Made) : Quiet (.make made) := fun _ _ => rfl

theorem quiet_findSpec : Quiet .findSpec := fun _ _ => rfl

theorem quiet_attempt (what : Outside) : Quiet (.attempt what) := fun _ _ => rfl

theorem fine_attempt (what : Outside) : Fine held (attempt what) :=
  (Fine.ask (quiet_attempt what)).bind fun r => by
    cases r with
    | none => exact Fine.pure ()
    | some exc => exact Fine.throw nofun

theorem fine_resolveProvider {group name : String} {builtins : String → Option (M Obj)} {args : List String}
    (hbuiltins : ∀ factory, builtins name = some factory → Fine held factory) :
    Fine held (resolveProvider group name builtins args) :=
  (Fine.ask (quiet_lookup group name args)).bind fun r => by
    cases r with
    | nothing =>
      cases hname : builtins name with
      | none => exact Fine.throw nofun
      | some factory => exact hbuiltins factory hname
    | made => exact Fine.ask (quiet_make _)
    | raised exc => exact Fine.throw nofun
    | unknown group name => exact Fine.throw nofun

/-- The last read of a getter that has seen a value, or stored one. -/
theorem does_reread {g : Global} {s t : Mem} {x : Val g} (ht : discipline.Rely held s t)
    (hx : (t.slots g).value = some x) : discipline.Does serve held t (read g) fun r held' u =>
      held' = held ∧ discipline.Rely held s u ∧ Blames s r u ∧
        ∀ v, r = .ok v → v = (u.slots g).value ∧ (v = none → (s.slots g).swaps < (u.slots g).swaps) := by
  refine Discipline.does_read (fun _ _ => rfl) fun u hu a₀ => ⟨rfl, ht.trans hu, nofun, fun v hv => ?_⟩
  obtain rfl := Except.ok.inj hv
  refine ⟨rfl, fun hnone => ?_⟩
  rcases (hu.1.swaps g).lt_or_eq with hlt | heq
  · exact lt_of_le_of_lt (ht.1.swaps g) hlt
  · obtain ⟨y, hy, -⟩ := hu.1.kept g x hx heq
    exact absurd (hy.symm.trans hnone) nofun

theorem rely_of_cons {l : Lock} {s t : Mem} (h : discipline.Rely (l :: held) s t) : discipline.Rely held s t :=
  ⟨h.1, fun l' hl' => h.2 l' (List.mem_cons_of_mem _ hl')⟩

/-- What a store in a section changes. -/
theorem does_store {g : Global} {l : Lock} {v : Val g} {s : Mem} {post : Except Raised Unit → List Lock → Mem → Prop}
    (hguard : guard g = some l) (hheld : ∀ l' ∈ held, rank l' < rank l) (hempty : (s.slots g).value = none)
    (hpost : ∀ t, discipline.Rely held s t → view l t = view l s → ∀ u,
      discipline.Rely held s u → view l u = view l (t.put g ⟨some v, (t.slots g).swaps⟩) →
      u = t.put g ⟨some v, (t.slots g).swaps⟩ → post (.ok ()) (l :: held) u) :
    discipline.Does serve (l :: held) s (ask (.store g v)) post := by
  refine Discipline.does_act fun t ht a₀ => ?_
  have hview : view l t = view l s := ht.2 l List.mem_cons_self
  have hgrows : Grows t (t.put g ⟨some v, (t.slots g).swaps⟩) :=
    grows_store (fun _ => slots_of_view hguard hview ▸ hempty) v
  have hframe : ∀ l' ≠ l, view l' (t.put g ⟨some v, (t.slots g).swaps⟩) = view l' t := by
    intro l' hl'
    refine view_put (fun h => hl' ?_) t _
    rw [hguard] at h
    exact (Option.some.inj h).symm
  refine ⟨hgrows, fun l' hl' => hframe l' fun h => hl' (h ▸ List.mem_cons_self), ?_⟩
  refine hpost t (rely_of_cons ht) hview _ ((rely_of_cons ht).trans ⟨hgrows, fun l' hl' => hframe l' ?_⟩) rfl rfl
  rintro rfl
  exact lt_irrefl _ (hheld l' hl')

/-- **Double-checked locking.** -/
theorem gets_lazily {g : Global} {l : Lock} {build : M (Val g)} (hguard : guard g = some l)
    (hheld : ∀ l' ∈ held, rank l' < rank l)
    (hbuild : ∀ s, discipline.Does serve (l :: held) s build fun r held' t =>
      held' = l :: held ∧ discipline.Rely (l :: held) s t ∧ Blames s r t ∧
        ∀ v, r = .ok v → ∀ z, view l z = view l t → tidy l (view l (z.put g ⟨some v, (z.slots g).swaps⟩))) :
    Gets held g (lazily g l build) := by
  intro s
  refine Discipline.does_bind (Discipline.does_read (fun _ _ => rfl) fun t ht a₀ => ⟨fun first hfirst => ?_, nofun⟩)
  obtain rfl := Except.ok.inj hfirst
  cases hx : (t.slots g).value with
  | some x =>
    simp only [serve, hx, Option.isSome_some, if_true]
    exact does_reread ht hx
  | none =>
    simp only [serve, hx, Option.isSome_none, Bool.false_eq_true, if_false]
    refine Discipline.does_bind (Discipline.does_withLock hheld fun u hu htidy => ?_)
    refine Discipline.does_bind (Discipline.does_read (fun _ _ => rfl) fun w hw a₁ => ⟨fun again hagain => ?_, nofun⟩)
    obtain rfl := Except.ok.inj hagain
    have hsw : discipline.Rely held s w := (ht.trans hu).trans (rely_of_cons hw)
    have htidyw : ∀ z, view l z = view l w → tidy l (view l z) := by
      intro z hz
      rw [hz, show view l w = view l u from hw.2 l List.mem_cons_self]
      exact htidy
    cases hy : (w.slots g).value with
    | some y =>
      simp only [serve, hy, Option.isSome_some, if_true]
      refine Discipline.does_pure ⟨rfl, fun z hz => ?_⟩
      have hslots := slots_of_view hguard (hz.2 l List.mem_cons_self)
      exact ⟨htidyw z (hz.2 l List.mem_cons_self),
        fun _ _ => does_reread (hsw.trans (rely_of_cons hz)) (hslots ▸ hy), nofun⟩
    | none =>
      simp only [serve, hy, Option.isSome_none, Bool.false_eq_true, if_false]
      refine Discipline.does_bind ((hbuild w).mono fun r held' y' hr => ?_)
      obtain ⟨rfl, hwy, hblames, htidyv⟩ := hr
      have hempty : (y'.slots g).value = none := slots_of_view hguard (hwy.2 l List.mem_cons_self) ▸ hy
      refine ⟨fun v hv => does_store hguard hheld hempty fun z hz hzview x hx _ hxeq => ⟨rfl, fun y hy => ?_⟩,
        fun e he => ⟨rfl, fun z hz => ?_⟩⟩
      · have hview : view l y = view l x := hy.2 l List.mem_cons_self
        refine ⟨?_, fun _ _ => ?_, nofun⟩
        · show tidy l (view l y)
          rw [hview, hxeq]
          exact htidyv v hv z hzview
        · refine does_reread (((hsw.trans (rely_of_cons hwy)).trans hx).trans (rely_of_cons hy)) (x := v) ?_
          rw [slots_of_view hguard hview, hxeq]
          exact congrArg Slot.value (slots_put_self z g _)
      · have hz' := hwy.trans hz
        refine ⟨htidyw z (hz'.2 l List.mem_cons_self), nofun, fun e' he' => ?_⟩
        obtain rfl := Except.error.inj he'
        exact ⟨trivial, hsw.trans (rely_of_cons hz'), (hblames.error he).mono hsw.1 hz.1, nofun⟩

/-- Of the locks but that of the settings nothing has to hold. -/
theorem tidy_of_ne {l : Lock} (hl : l ≠ .settings) (v : View l) : tidy l v := by
  cases l with
  | settings => exact absurd rfl hl
  | _ => trivial

theorem gets_lazily_of_fine {g : Global} {l : Lock} {build : M (Val g)} (hguard : guard g = some l)
    (hl : l ≠ .settings) (hbuild : Fine [l] build) : Gets [] g (lazily g l build) :=
  gets_lazily hguard nofun fun s => (hbuild s).mono fun _ _ _ hr =>
    ⟨hr.1, hr.2.1, hr.2.2, fun _ _ _ _ => tidy_of_ne hl _⟩

variable (hheld : ∀ l ∈ held, rank l < 1)
include hheld

theorem gets_getSettings : Gets held .settings getSettings := by
  refine gets_lazily rfl hheld fun s => ?_
  refine Discipline.does_bind (Discipline.does_act fun t ht reply => ?_)
  refine ⟨Grows.refl t, fun _ _ => rfl, fun r hr => ?_, nofun⟩
  obtain rfl := Except.ok.inj hr
  cases reply with
  | error exc => exact Discipline.does_throw ⟨rfl, ht, nofun, nofun⟩
  | ok v =>
    refine Discipline.does_pure ⟨rfl, ht, nofun, fun w hw z hz x hx => ?_⟩
    obtain rfl := Except.ok.inj hw
    have hsource : z.source = t.source := congrArg Prod.fst hz
    simp only [view, slots_put_self, Option.some.injEq] at hx
    subst hx
    exact hsource.symm

theorem fine_settingsAttribute : Fine held settingsAttribute := by
  intro s
  refine Discipline.does_bind ((gets_getSettings hheld s).mono fun r held' t hr => ?_)
  obtain ⟨rfl, ht, hblames, hvalue⟩ := hr
  refine ⟨fun v hv => ?_, fun e he => ⟨rfl, ht, hblames.error he⟩⟩
  cases v with
  | some settings => exact Discipline.does_pure ⟨rfl, ht, nofun⟩
  | none => exact Discipline.does_throw ⟨rfl, ht, fun _ => (hvalue none hv).2 rfl⟩

theorem fine_resolveFromSettings : Fine held resolveFromSettings := by
  refine (fine_settingsAttribute hheld).bind fun settings => Fine.bind (Fine.tryElse ?_ ?_ rfl Fine.pure) fun sink => ?_
  · refine fine_resolveProvider fun factory hfactory => ?_
    unfold builtinSinks at hfactory
    split_ifs at hfactory <;> cases hfactory <;> exact Fine.ask (quiet_make _)
  · intro e he
    cases e with
    | unknownBackend group name => exact Fine.ask (quiet_make _)
    | _ => exact Fine.throw he
  · cases settings.metricsCardinalityBudget with
    | some budget => exact Fine.ask (quiet_make _)
    | none => exact Fine.pure sink

theorem fine_buildFromSettings : Fine held buildFromSettings := by
  refine (fine_settingsAttribute hheld).bind fun settings => Fine.bind ?_ fun backend => Fine.bind ?_ fun sanitizer =>
    Fine.ask (quiet_make _)
  · refine fine_resolveProvider fun factory hfactory => ?_
    unfold builtinBackends at hfactory
    split_ifs at hfactory <;> cases hfactory <;> exact Fine.ask (quiet_make _)
  · refine fine_resolveProvider fun factory hfactory => ?_
    unfold builtinSanitizers at hfactory
    split_ifs at hfactory
    cases hfactory
    exact Fine.ask (quiet_make _)

/-- What `get_redis_client` ends with. -/
def ReturnsClient (url : String) (held : List Lock) (s : Mem) (r : Except Raised Obj) (held' : List Lock) (t : Mem) :
    Prop :=
  held' = held ∧ discipline.Rely held s t ∧ Blames s r t ∧ ∀ x, r = .ok x → (t.slots (.client url)).value = some x

omit hheld in
/-- The section of `get_redis_client` returns a client that is cached when the lock is given back. -/
theorem does_clientSection (hheld : ∀ l ∈ held, rank l < 1) (url : String) {s y : Mem} (hsy : discipline.Rely held s y)
    {post : Except Raised Obj → List Lock → Mem → Prop}
    (hpost : ∀ r z, ReturnsClient url held s r held z → post r held z) :
    discipline.Does serve (.clients :: held) y
      (do match ← read (.client url) with
        | some client => pure client
        | none =>
          attempt (.fromUrl url)
          let client ← ask (.make (.redis url))
          ask (.store (.client url) client)
          pure client)
      fun r held' u => held' = .clients :: held ∧ ∀ v, discipline.Rely held' u v →
        discipline.tidy .clients (discipline.view .clients v) ∧ post r held v := by
  refine Discipline.does_bind (Discipline.does_read (fun _ _ => rfl) fun t ht a₀ => ⟨fun again hagain => ?_, nofun⟩)
  obtain rfl := Except.ok.inj hagain
  have hst := hsy.trans (rely_of_cons ht)
  cases hc : (t.slots (.client url)).value with
  | some client =>
    simp only [serve, hc]
    refine Discipline.does_pure ⟨rfl, fun z hz => ⟨trivial, hpost _ _ ⟨rfl, hst.trans (rely_of_cons hz), nofun, ?_⟩⟩⟩
    intro x hx
    rw [slots_of_view (g := .client url) rfl (hz.2 .clients List.mem_cons_self), hc, Except.ok.inj hx]
  | none =>
    simp only [serve, hc]
    refine Discipline.does_bind ((fine_attempt (.fromUrl url) t).mono fun r held' a hr => ?_)
    obtain ⟨rfl, hta, hblames⟩ := hr
    refine ⟨fun _ _ => ?_, fun e he => ⟨rfl, fun z hz => ⟨trivial, hpost _ _
      ⟨rfl, hst.trans (rely_of_cons (hta.trans hz)), (hblames.error he).mono hst.1 hz.1, nofun⟩⟩⟩⟩
    refine Discipline.does_bind ((Fine.ask (quiet_make (.redis url)) a).mono fun r held' b hr => ?_)
    obtain ⟨rfl, hab, hblames⟩ := hr
    have htb := hta.trans hab
    refine ⟨fun client hclient => ?_, fun e he => ⟨rfl, fun z hz => ⟨trivial, hpost _ _
      ⟨rfl, hst.trans (rely_of_cons (htb.trans hz)), (hblames.error he).mono (hst.1.trans hta.1) hz.1, nofun⟩⟩⟩⟩
    have hempty : (b.slots (.client url)).value = none := by
      rw [slots_of_view (g := .client url) rfl (htb.2 .clients List.mem_cons_self), hc]
    refine Discipline.does_bind (does_store (l := .clients) rfl hheld hempty fun t' _ _ x hx _ hxeq =>
      ⟨fun _ _ => Discipline.does_pure ⟨rfl, fun z hz => ⟨trivial, hpost _ _ ⟨rfl, ?_, nofun, fun o ho => ?_⟩⟩⟩, nofun⟩)
    · exact (hst.trans (rely_of_cons htb)).trans (hx.trans (rely_of_cons hz))
    · obtain rfl := Except.ok.inj ho
      rw [slots_of_view (g := .client url) rfl (hz.2 .clients List.mem_cons_self), hxeq, slots_put_self]

/-- The client that `get_redis_client` returns is the one that is cached. -/
theorem does_getRedisClient (url : String) (s : Mem) :
    discipline.Does serve held s (getRedisClient url) (ReturnsClient url held s) := by
  refine Discipline.does_bind (Discipline.does_read (fun _ _ => rfl) fun t ht a₀ =>
    ⟨fun existing hexisting => ?_, nofun⟩)
  obtain rfl := Except.ok.inj hexisting
  cases hx : (t.slots (.client url)).value with
  | some x =>
    simp only [serve, hx]
    refine Discipline.does_pure ⟨rfl, ht, nofun, fun y hy => ?_⟩
    rw [hx, Except.ok.inj hy]
  | none =>
    simp only [serve, hx]
    refine Discipline.does_bind ((fine_attempt .importRedis t).mono fun r held' u hr => ?_)
    obtain ⟨rfl, hu, hblames⟩ := hr
    have hsu := ht.trans hu
    refine ⟨fun _ _ => ?_, fun e he => ⟨rfl, hsu, (hblames.error he).mono ht.1 (Grows.refl u), nofun⟩⟩
    exact Discipline.does_withLock hheld fun w hw _ => does_clientSection hheld url (hsu.trans hw) fun _ _ hr => hr

theorem gets_getRedisClient (url : String) : Gets held (.client url) (getter (.client url)) := by
  intro s
  refine Discipline.does_bind ((does_getRedisClient hheld url s).mono fun r held' t hr => ?_)
  obtain ⟨rfl, ht, hblames, hvalue⟩ := hr
  refine ⟨fun x hx => Discipline.does_pure ⟨rfl, ht, nofun, fun v hv => ?_⟩,
    fun e he => ⟨rfl, ht, hblames.error he, nofun⟩⟩
  obtain rfl := Except.ok.inj hv
  exact ⟨(hvalue x hx).symm, nofun⟩

theorem fine_registerForRecovery (backend : Obj) : Fine held (registerForRecovery backend) := by
  intro s
  refine Discipline.does_withLock hheld fun t ht _ => Discipline.does_act fun u hu a₀ => ?_
  have hgrows : Grows u (serve u (.enlist backend) a₀).2 := grows_of_swapped fun _ => .inl rfl
  have hframe : ∀ l ≠ .recovery, view l (serve u (.enlist backend) a₀).2 = view l u := by
    intro l hl
    cases l with
    | recovery => exact absurd rfl hl
    | _ => rfl
  refine ⟨hgrows, fun l hl => hframe l fun h => hl (h ▸ List.mem_cons_self), rfl, fun z hz => ⟨trivial, rfl, ?_, nofun⟩⟩
  refine (ht.trans (rely_of_cons hu)).trans (Discipline.Rely.trans ⟨hgrows, fun l hl => hframe l ?_⟩ (rely_of_cons hz))
  rintro rfl
  exact lt_irrefl _ (hheld _ hl)

theorem fine_buildRedis (message : String) (made : Settings → Obj → Made) : Fine held (buildRedis message made) := by
  refine (fine_settingsAttribute hheld).bind fun settings => ?_
  split_ifs
  · refine (fine_attempt _).bind fun _ => Fine.bind (fun s => ?_) fun client =>
      (Fine.ask (quiet_make _)).bind fun backend =>
        (fine_registerForRecovery hheld backend).bind fun _ => Fine.pure backend
    exact (does_getRedisClient hheld _ s).mono fun _ _ _ hr => ⟨hr.1, hr.2.1, hr.2.2.1⟩
  · exact Fine.throw nofun

theorem fine_backendName (backend : Backend) : Fine held (backendName backend) := by
  cases backend with
  | auto =>
    refine (fine_settingsAttribute hheld).bind fun settings => ?_
    split_ifs
    · refine (Fine.ask quiet_findSpec).bind fun r => ?_
      rcases r with exc | found | found
      · exact Fine.throw nofun
      · exact Fine.pure _
      · exact Fine.pure _
    · exact Fine.pure _
  | memory => exact Fine.pure _
  | redis => exact Fine.pure _
  | pybreaker => exact Fine.pure _

theorem fine_builtinThrottles (name : String) (factory : M Obj) (h : builtinThrottles name = some factory) :
    Fine held factory := by
  unfold builtinThrottles at h
  split_ifs at h <;> cases h
  · exact Fine.ask (quiet_make _)
  · exact fine_buildRedis hheld _ _

theorem fine_builtinCaches (key name : String) (factory : M Obj) (h : builtinCaches key name = some factory) :
    Fine held factory := by
  unfold builtinCaches at h
  split_ifs at h <;> cases h
  · exact Fine.ask (quiet_make _)
  · exact fine_buildRedis hheld _ _

theorem fine_configured {group : String} {builtins : String → Option (M Obj)} {args : List String}
    (hbuiltins : ∀ name factory, builtins name = some factory → Fine held factory) :
    Fine held (configured group builtins args) :=
  (fine_settingsAttribute hheld).bind fun settings => (fine_backendName hheld settings.backend).bind fun name =>
    fine_resolveProvider (hbuiltins name)

end Fine

/-! ### Globals without a lock -/

theorem below_nil : ∀ l ∈ ([] : List Lock), rank l < 1 := nofun

theorem does_store_free {g : Global} {v : Val g} {s : Mem} {post : Except Raised Unit → List Lock → Mem → Prop}
    (hguard : guard g = none)
    (hpost : ∀ t, discipline.Rely [] s t → (t.slots g).value = some v → post (.ok ()) [] t) :
    discipline.Does serve [] s (ask (.store g v)) post := by
  refine Discipline.does_act fun t ht a₀ => ?_
  have hgrows : Grows t (t.put g ⟨some v, (t.slots g).swaps⟩) := grows_store (fun h => by simp [hguard] at h) v
  refine ⟨hgrows, fun l _ => view_put (by rw [hguard]; nofun) t _, hpost _ (ht.trans ⟨hgrows, nofun⟩) ?_⟩
  exact congrArg Slot.value (slots_put_self t g _)

theorem gets_getThrottle : Gets [] .throttle getThrottle := by
  intro s
  refine Discipline.does_bind (Discipline.does_read (fun _ _ => rfl) fun t ht a₀ => ⟨fun first hfirst => ?_, nofun⟩)
  obtain rfl := Except.ok.inj hfirst
  cases hx : (t.slots .throttle).value with
  | some x =>
    simp only [serve, hx, Option.isSome_some, if_true]
    exact does_reread ht hx
  | none =>
    simp only [serve, hx, Option.isSome_none, Bool.false_eq_true, if_false]
    refine Discipline.does_bind
      ((fine_configured below_nil (fine_builtinThrottles below_nil) t).mono fun r held' u hr => ?_)
    obtain ⟨rfl, hu, hblames⟩ := hr
    refine ⟨fun throttle _ => ?_, fun e he => ⟨rfl, ht.trans hu, (hblames.error he).mono ht.1 (Grows.refl u), nofun⟩⟩
    exact Discipline.does_bind (does_store_free rfl fun w hw hstored =>
      ⟨fun _ _ => does_reread ((ht.trans hu).trans hw) hstored, nofun⟩)

theorem gets_getCache (name : String) : Gets [] (.cache name) (getter (.cache name)) := by
  intro s
  refine Discipline.does_bind (Discipline.does_bind
    (Discipline.does_read (fun _ _ => rfl) fun t ht a₀ => ⟨fun existing hexisting => ?_, nofun⟩))
  obtain rfl := Except.ok.inj hexisting
  cases hx : (t.slots (.cache name)).value with
  | some x =>
    simp only [serve, hx]
    refine Discipline.does_pure ⟨fun cached hcached => Discipline.does_pure ⟨rfl, ht, nofun, fun v hv => ?_⟩, nofun⟩
    obtain rfl := Except.ok.inj hcached
    obtain rfl := Except.ok.inj hv
    exact ⟨hx.symm, nofun⟩
  | none =>
    simp only [serve, hx]
    refine Discipline.does_bind
      ((fine_configured below_nil (fine_builtinCaches below_nil name) t).mono fun r held' u hr => ?_)
    obtain ⟨rfl, hu, hblames⟩ := hr
    refine ⟨fun cached _ => ?_, fun e he => ⟨nofun, fun e' he' => ?_⟩⟩
    · refine Discipline.does_bind (does_store_free rfl fun w hw hstored => ⟨fun _ _ => ?_, nofun⟩)
      refine Discipline.does_pure ⟨fun cached' hcached => Discipline.does_pure
        ⟨rfl, (ht.trans hu).trans hw, nofun, fun v hv => ?_⟩, nofun⟩
      obtain rfl := Except.ok.inj hcached
      obtain rfl := Except.ok.inj hv
      exact ⟨hstored.symm, nofun⟩
    · obtain rfl := Except.error.inj he'
      exact ⟨rfl, ht.trans hu, (hblames.error he).mono ht.1 (Grows.refl u), nofun⟩

/-- What every getter does, alone and in between. -/
theorem gets_getter (g : Global) : Gets [] g (getter g) := by
  cases g with
  | settings => exact gets_getSettings below_nil
  | metrics => exact gets_lazily_of_fine rfl nofun (fine_resolveFromSettings (by simp [rank]))
  | dispatcher => exact gets_lazily_of_fine rfl nofun (fine_buildFromSettings (by simp [rank]))
  | tasks => exact gets_lazily_of_fine rfl nofun (Fine.ask (quiet_make _))
  | throttle => exact gets_getThrottle
  | cache name => exact gets_getCache name
  | client url => exact gets_getRedisClient below_nil url

end ResilienceKit.Singletons

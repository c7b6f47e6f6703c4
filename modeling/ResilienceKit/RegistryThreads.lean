import ResilienceKit.Lib.Mealy
import ResilienceKit.Registry

/-!
# RegistryThreads — the breaker cache under threads

Threads call `register_service`, `get_breaker` and `reset` in any order of steps.  A section under the lock is one
step; `get_breaker` first reads the cache without the lock, and enters the lock if it found nothing.
`registry_coherent` says which breakers are cached and returned, over all interleavings.
-/

namespace ResilienceKit

/-- A breaker object that the registry has built. -/
structure BuiltBreaker where
  ident : ℕ
  name : String
  config : BreakerConfig

namespace ResilienceRegistry

/-- `reset` -/
def reset {B : Type} (_ : ResilienceRegistry B) : ResilienceRegistry B := {}

/-- `self._breakers[name] = cached` -/
def cache {B : Type} (r : ResilienceRegistry B) (name : String) (breaker : B) : ResilienceRegistry B :=
  { r with breakers := Function.update r.breakers name (some breaker) }

section Tables

variable {B : Type} (r : ResilienceRegistry B) (name name' : String)

theorem breakers_registerService (overrides : String → Option Dict) :
    (r.registerService name overrides).breakers name' = if name' = name then none else r.breakers name' :=
  Function.update_apply ..

theorem overrides_registerService (overrides : String → Option Dict) (h : name' ≠ name) :
    (r.registerService name overrides).overrides name' = r.overrides name' := Function.update_of_ne h ..

theorem breakers_cache (breaker : B) :
    (r.cache name breaker).breakers name' = if name' = name then some breaker else r.breakers name' :=
  Function.update_apply ..

end Tables

end ResilienceRegistry

namespace RegistryThreads

open Traverse (bind_eq_ok)

/-- `waiting` are the threads in `get_breaker` that found nothing without the lock, and the name they want. -/
structure Sys where
  registry : ResilienceRegistry BuiltBreaker := {}
  waiting : ℕ → Option String := fun _ => none
  built : ℕ := 0

/-- `enter` is the section of `get_breaker` under the lock; `factory` says what the factory of the backend raises,
if it raises. -/
inductive Event
  | register (name : String) (overrides : String → Option Dict)
  | reset
  | read (thread : ℕ) (name : String)
  | enter (thread : ℕ) (factory : Option PyExc)

/-- The step drops what is cached for the name. -/
def Event.Clears (name : String) : Event → Prop
  | .register name' _ => name' = name
  | .reset => True
  | .read _ _ => False
  | .enter _ _ => False

inductive Out
  | done
  | ignored
  | missed
  | returned (name : String) (breaker : BuiltBreaker)
  | raised (name : String) (exc : PyExc)

variable (b : Builtins) (defaults : Defaults)

/-- The breaker that the factory makes of the effective config. -/
def build (s : Sys) (name : String) (factory : Option PyExc) : Except PyExc BuiltBreaker := do
  let cfg ← s.registry.getConfig b defaults name
  match factory with
  | some exc => throw exc
  | none => return ⟨s.built, name, cfg.circuitBreaker⟩

/-- `get_breaker` under the lock. -/
def locked (s : Sys) (name : String) (factory : Option PyExc) : Sys × Out :=
  match s.registry.breakers name with
  | some breaker => (s, .returned name breaker)
  | none =>
    match build b defaults s name factory with
    | .error exc => (s, .raised name exc)
    | .ok breaker =>
      ({ s with registry := s.registry.cache name breaker, built := s.built + 1 }, .returned name breaker)

/-- `get_breaker` up to the lock. -/
def read (s : Sys) (thread : ℕ) (name : String) : Sys × Out :=
  match s.waiting thread with
  | some _ => (s, .ignored)
  | none =>
    match s.registry.breakers name with
    | some breaker => (s, .returned name breaker)
    | none => ({ s with waiting := Function.update s.waiting thread (some name) }, .missed)

/-- A thread that missed enters the lock, and leaves `get_breaker`. -/
def enter (s : Sys) (thread : ℕ) (factory : Option PyExc) : Sys × Out :=
  match s.waiting thread with
  | none => (s, .ignored)
  | some name =>
    let after := locked b defaults s name factory
    ({ after.1 with waiting := Function.update s.waiting thread none }, after.2)

def step (s : Sys) : Event → Sys × Out
  | .register name overrides => ({ s with registry := s.registry.registerService name overrides }, .done)
  | .reset => ({ s with registry := s.registry.reset }, .done)
  | .read thread name => read s thread name
  | .enter thread factory => enter b defaults s thread factory

/-- Any number of threads on one registry. -/
def threads : Mealy Sys Event Out where
  init := {}
  step := step b defaults

/-! ### The merge -/

/-- Each field is the override's if there is one, and that of the settings otherwise. -/
structure Merged (given : Dict) (cfg : BreakerConfig) : Prop where
  failMax : b.int ((given "fail_max").getD (.int defaults.circuitBreaker.failMax)) = .ok cfg.failMax
  resetTimeout : b.float ((given "reset_timeout").getD (.float defaults.circuitBreaker.resetTimeout)) =
    .ok cfg.resetTimeout
  successThreshold : b.int ((given "success_threshold").getD (.int defaults.circuitBreaker.successThreshold)) =
    .ok cfg.successThreshold
  excludedExceptions : tupleOf
    ((given "excluded_exceptions").getD (.tuple (DEFAULT_EXCLUDED_EXCEPTIONS.map .cls))) = .ok cfg.excludedExceptions

variable {b defaults}

theorem merged_of_breakerConfig {given : Dict} {cfg : BreakerConfig}
    (h : ResilienceRegistry.breakerConfig b defaults given = .ok cfg) : Merged b defaults given cfg := by
  obtain ⟨failMax, hfail, h⟩ := bind_eq_ok h
  obtain ⟨resetTimeout, hreset, h⟩ := bind_eq_ok h
  obtain ⟨successThreshold, hsuccess, h⟩ := bind_eq_ok h
  obtain ⟨excludedExceptions, hexcluded, h⟩ := bind_eq_ok h
  obtain rfl := Except.ok.inj h
  exact ⟨hfail, hreset, hsuccess, hexcluded⟩

theorem merged_of_getConfig {r : ResilienceRegistry BuiltBreaker} {name : String} {cfg : ServiceConfig}
    (h : r.getConfig b defaults name = .ok cfg) :
    Merged b defaults ((r.overrides name).getD {}).circuitBreaker cfg.circuitBreaker := by
  obtain ⟨retry, -, h⟩ := bind_eq_ok h
  obtain ⟨circuitBreaker, hcb, h⟩ := bind_eq_ok h
  obtain rfl := Except.ok.inj h
  exact merged_of_breakerConfig hcb

/-- The effective config of a name is known from its overrides. -/
theorem getConfig_congr {r r' : ResilienceRegistry BuiltBreaker} {name : String}
    (h : r.overrides name = r'.overrides name) : r.getConfig b defaults name = r'.getConfig b defaults name := by
  unfold ResilienceRegistry.getConfig
  rw [h]

/-! ### One step -/

section Steps

variable {s : Sys} {e : Event} {name : String} {x : BuiltBreaker} {exc : PyExc}

/-- What one step does to the registry, and what it returns. -/
inductive Moved (b : Builtins) (defaults : Defaults) (s : Sys) : Event → Out → Sys → Prop
  | register (name : String) (overrides : String → Option Dict) {s' : Sys}
      (hregistry : s'.registry = s.registry.registerService name overrides) :
      Moved b defaults s (.register name overrides) .done s'
  | reset {s' : Sys} (hregistry : s'.registry = s.registry.reset) : Moved b defaults s .reset .done s'
  | quiet {e : Event} {out : Out} {s' : Sys} (hregistry : s'.registry = s.registry)
      (hout : out = .ignored ∨ out = .missed) : Moved b defaults s e out s'
  | hit {e : Event} {name : String} {x : BuiltBreaker} {s' : Sys} (hregistry : s'.registry = s.registry)
      (hcached : s.registry.breakers name = some x) : Moved b defaults s e (.returned name x) s'
  | build (thread : ℕ) {name : String} {cfg : ServiceConfig} {s' : Sys}
      (hempty : s.registry.breakers name = none) (hcfg : s.registry.getConfig b defaults name = .ok cfg)
      (hregistry : s'.registry = s.registry.cache name ⟨s.built, name, cfg.circuitBreaker⟩) :
      Moved b defaults s (.enter thread none) (.returned name ⟨s.built, name, cfg.circuitBreaker⟩) s'
  | fail (thread : ℕ) (factory : Option PyExc) {name : String} {exc : PyExc} {s' : Sys}
      (hregistry : s'.registry = s.registry)
      (hexc : s.registry.getConfig b defaults name = .error exc ∨ factory = some exc) :
      Moved b defaults s (.enter thread factory) (.raised name exc) s'

theorem read_moved (thread : ℕ) (name : String) :
    Moved b defaults s (.read thread name) (read s thread name).2 (read s thread name).1 := by
  unfold read
  cases s.waiting thread with
  | some name' => exact .quiet rfl (.inl rfl)
  | none =>
    cases hcached : s.registry.breakers name with
    | some x => exact .hit rfl hcached
    | none => exact .quiet rfl (.inr rfl)

theorem locked_moved (thread : ℕ) (factory : Option PyExc) {s' : Sys}
    (hregistry : s'.registry = (locked b defaults s name factory).1.registry) :
    Moved b defaults s (.enter thread factory) (locked b defaults s name factory).2 s' := by
  unfold locked at hregistry ⊢
  cases hcached : s.registry.breakers name with
  | some x =>
    rw [hcached] at hregistry
    exact .hit hregistry hcached
  | none =>
    rw [hcached] at hregistry
    unfold build at hregistry ⊢
    cases hcfg : s.registry.getConfig b defaults name with
    | error exc =>
      rw [hcfg] at hregistry
      exact .fail thread factory hregistry (.inl hcfg)
    | ok cfg =>
      rw [hcfg] at hregistry
      cases factory with
      | some exc => exact .fail thread (some exc) hregistry (.inr rfl)
      | none => exact .build thread hcached hcfg hregistry

theorem enter_moved (thread : ℕ) (factory : Option PyExc) : Moved b defaults s (.enter thread factory)
    (enter b defaults s thread factory).2 (enter b defaults s thread factory).1 := by
  unfold enter
  cases s.waiting thread with
  | none => exact .quiet rfl (.inl rfl)
  | some name => exact locked_moved thread factory rfl

/-- **Inversion.** -/
theorem moved (s : Sys) (e : Event) : Moved b defaults s e (step b defaults s e).2 (step b defaults s e).1 := by
  cases e with
  | register name overrides => exact .register name overrides rfl
  | reset => exact .reset rfl
  | read thread name => exact read_moved thread name
  | enter thread factory => exact enter_moved thread factory

/-- Each cached breaker is of the name's effective config. -/
def Coherent (b : Builtins) (defaults : Defaults) (r : ResilienceRegistry BuiltBreaker) : Prop :=
  ∀ name x, r.breakers name = some x → x.name = name ∧
    ∃ cfg, r.getConfig b defaults name = .ok cfg ∧ x.config = cfg.circuitBreaker

variable {out : Out} {s' : Sys}

theorem Moved.coherent (hm : Moved b defaults s e out s') (hs : Coherent b defaults s.registry) :
    Coherent b defaults s'.registry := by
  cases hm with
  | register name' overrides hregistry =>
    rw [hregistry]
    intro name x hx
    rw [ResilienceRegistry.breakers_registerService] at hx
    split_ifs at hx with hname
    obtain ⟨hxname, cfg, hcfg, hconfig⟩ := hs name x hx
    have hkept := ResilienceRegistry.overrides_registerService s.registry name' name overrides hname
    rw [getConfig_congr hkept.symm] at hcfg
    exact ⟨hxname, cfg, hcfg, hconfig⟩
  | reset hregistry =>
    rw [hregistry]
    exact nofun
  | quiet hregistry => exact hregistry ▸ hs
  | hit hregistry => exact hregistry ▸ hs
  | fail thread factory hregistry => exact hregistry ▸ hs
  | @build thread name' cfg _ hempty hcfg hregistry =>
    rw [hregistry]
    intro name x hx
    rw [ResilienceRegistry.breakers_cache] at hx
    split_ifs at hx with hname
    · obtain rfl := Option.some.inj hx
      subst hname
      exact ⟨rfl, cfg, hcfg, rfl⟩
    · exact hs name x hx

/-- A step that does not clear the name keeps its overrides and what is cached for it. -/
theorem Moved.kept (hm : Moved b defaults s e out s') (he : ¬ e.Clears name) :
    s'.registry.overrides name = s.registry.overrides name ∧
      ∀ x, s.registry.breakers name = some x → s'.registry.breakers name = some x := by
  cases hm with
  | register name' overrides hregistry =>
    have hname : name ≠ name' := fun h => he h.symm
    rw [hregistry, ResilienceRegistry.overrides_registerService _ _ _ _ hname,
      ResilienceRegistry.breakers_registerService, if_neg hname]
    exact ⟨rfl, fun x hx => hx⟩
  | reset hregistry => exact absurd trivial he
  | quiet hregistry => exact hregistry ▸ ⟨rfl, fun x hx => hx⟩
  | hit hregistry => exact hregistry ▸ ⟨rfl, fun x hx => hx⟩
  | fail thread factory hregistry => exact hregistry ▸ ⟨rfl, fun x hx => hx⟩
  | @build thread name' cfg _ hempty hcfg hregistry =>
    rw [hregistry]
    refine ⟨rfl, fun x hx => ?_⟩
    have hname : name ≠ name' := by
      rintro rfl
      rw [hempty] at hx
      cases hx
    rwa [ResilienceRegistry.breakers_cache, if_neg hname]

/-- What is returned is cached. -/
theorem Moved.cached (hm : Moved b defaults s e (.returned name x) s') : s'.registry.breakers name = some x := by
  cases hm with
  | quiet hregistry hout => simp at hout
  | hit hregistry hcached => exact hregistry ▸ hcached
  | build thread hempty hcfg hregistry =>
    rw [hregistry, ResilienceRegistry.breakers_cache, if_pos rfl]

/-- A call that raises was told so by the merge or by the factory. -/
theorem Moved.raised (hm : Moved b defaults s e (.raised name exc) s') : ∃ thread factory, e = .enter thread factory ∧
    s'.registry = s.registry ∧ (s.registry.getConfig b defaults name = .error exc ∨ factory = some exc) := by
  cases hm with
  | quiet hregistry hout => simp at hout
  | fail thread factory hregistry hexc => exact ⟨thread, factory, rfl, hregistry, hexc⟩

end Steps

/-! ### Runs -/

section Runs

variable {es : List Event} {s : Sys} {name : String}

theorem moved_record (b : Builtins) (defaults : Defaults) (s : Sys) (e : Event) :
    Moved b defaults s e ((threads b defaults).out s e) ((threads b defaults).next s e) := moved s e

theorem coherent_exec (b : Builtins) (defaults : Defaults) (es : List Event) :
    Coherent b defaults ((threads b defaults).exec {} es).registry := by
  induction es using List.reverseRecOn with
  | nil => exact nofun
  | append_singleton es e ih =>
    rw [Mealy.exec_concat]
    exact (moved _ e).coherent ih

/-- Steps that do not clear the name keep its overrides and what is cached for it. -/
theorem kept_exec (hes : ∀ e ∈ es, ¬ e.Clears name) :
    ((threads b defaults).exec s es).registry.overrides name = s.registry.overrides name ∧
      ∀ x, s.registry.breakers name = some x →
        ((threads b defaults).exec s es).registry.breakers name = some x := by
  induction es using List.reverseRecOn with
  | nil => exact ⟨rfl, fun x hx => hx⟩
  | append_singleton es e ih =>
    obtain ⟨hover, hbreakers⟩ := ih fun e' he' => hes e' (List.mem_append_left _ he')
    obtain ⟨hover', hbreakers'⟩ := (moved ((threads b defaults).exec s es) e).kept
      (hes e (List.mem_append_right _ List.mem_cons_self))
    rw [Mealy.exec_concat]
    exact ⟨hover'.trans hover, fun x hx => hbreakers' x (hbreakers x hx)⟩

/-- Whatever is returned for the name is in the cache from then on. -/
theorem cached_exec (hes : ∀ e ∈ es, ¬ e.Clears name) {r : Mealy.Step Sys Event Out}
    (hr : r ∈ (threads b defaults).log s es) {x : BuiltBreaker} (hx : r.out = .returned name x) :
    r.post.registry.breakers name = some x ∧
      ((threads b defaults).exec s es).registry.breakers name = some x := by
  obtain ⟨p, e, q, rfl, rfl⟩ := Mealy.mem_log_iff.mp hr
  have hm := moved_record b defaults ((threads b defaults).exec s p) e
  rw [show (threads b defaults).out ((threads b defaults).exec s p) e = .returned name x from hx] at hm
  have hcached := hm.cached
  refine ⟨hcached, ?_⟩
  rw [Mealy.exec_append, Mealy.exec_cons]
  exact (kept_exec fun e' he' => hes e' (List.mem_append_right _ (List.mem_cons_of_mem _ he'))).2 x hcached

/-- The effective config of a service that has just been registered. -/
def configured (b : Builtins) (defaults : Defaults) (name : String) (overrides : String → Option Dict) :
    Except PyExc ServiceConfig :=
  (({} : ResilienceRegistry BuiltBreaker).registerService name overrides).getConfig b defaults name

/-- After a registration and steps that do not clear the name, its effective config is of the registration. -/
theorem getConfig_registered {o : String → Option Dict} (hes : ∀ e ∈ es, ¬ e.Clears name) :
    ((threads b defaults).exec ((threads b defaults).next s (.register name o)) es).registry.getConfig b defaults name =
      configured b defaults name o := by
  refine getConfig_congr ((kept_exec hes).1.trans ?_)
  exact (ResilienceRegistry.registerService_overrides o).trans (ResilienceRegistry.registerService_overrides o).symm

/-- Whoever waits for the lock leaves it with an answer for the name. -/
theorem enter_leaves {thread : ℕ} (hwait : s.waiting thread = some name) (factory : Option PyExc) :
    (∃ x, (threads b defaults).out s (.enter thread factory) = .returned name x) ∨
      ∃ exc, (threads b defaults).out s (.enter thread factory) = .raised name exc := by
  have hout : (threads b defaults).out s (.enter thread factory) = (locked b defaults s name factory).2 := by
    show (enter b defaults s thread factory).2 = _
    rw [enter, hwait]
  rw [hout, locked]
  cases s.registry.breakers name with
  | some x => exact .inl ⟨x, rfl⟩
  | none =>
    cases hbuild : build b defaults s name factory with
    | error exc => exact .inr ⟨exc, rfl⟩
    | ok x => exact .inl ⟨x, rfl⟩

end Runs

/-- **The registry and its cache are coherent.**  In every interleaving each cached breaker is the merge of the
settings with the overrides that are registered; what `get_breaker` returns or raises after a registration, with no
other registration of the name or reset since, comes from the overrides of that registration; it is one object until
the name is registered again or the registry is reset; and a thread that found nothing leaves the lock with a breaker of
the name it waits for, or with what was raised for that name. -/
theorem registry_coherent (b : Builtins) (defaults : Defaults) :
    (∀ es name x, ((threads b defaults).exec {} es).registry.breakers name = some x → x.name = name ∧
      Merged b defaults ((((threads b defaults).exec {} es).registry.overrides name).getD {}).circuitBreaker x.config) ∧
    (∀ es name o later, (∀ e ∈ later, ¬ e.Clears name) →
      ∀ r ∈ (threads b defaults).log ((threads b defaults).exec {} (es ++ [.register name o])) later,
        (∀ x, r.out = .returned name x → ∃ cfg, configured b defaults name o = .ok cfg ∧
          x.config = cfg.circuitBreaker ∧ Merged b defaults ((o "circuit_breaker").getD fun _ => none) x.config) ∧
        ∀ exc, r.out = .raised name exc → ∃ thread factory, r.ev = .enter thread factory ∧
          (configured b defaults name o = .error exc ∨ factory = some exc)) ∧
    (∀ es name later, (∀ e ∈ later, ¬ e.Clears name) →
      ∀ r ∈ (threads b defaults).log ((threads b defaults).exec {} es) later,
        ∀ r' ∈ (threads b defaults).log ((threads b defaults).exec {} es) later,
          ∀ x x', r.out = .returned name x → r'.out = .returned name x' → x = x') ∧
    ∀ es thread name, ((threads b defaults).exec {} es).waiting thread = some name → ∀ factory,
      (∃ x, (threads b defaults).out ((threads b defaults).exec {} es) (.enter thread factory) = .returned name x) ∨
        ∃ exc,
          (threads b defaults).out ((threads b defaults).exec {} es) (.enter thread factory) = .raised name exc := by
  refine ⟨fun es name x hx => ?_, fun es name o later hlater r hr => ⟨fun x hx => ?_, fun exc hexc => ?_⟩,
    fun es name later hlater r hr r' hr' x x' hx hx' => ?_,
    fun es thread name hwait factory => enter_leaves hwait factory⟩
  · obtain ⟨hname, cfg, hcfg, hconfig⟩ := coherent_exec b defaults es name x hx
    exact ⟨hname, hconfig ▸ merged_of_getConfig hcfg⟩
  · have hcached := (cached_exec hlater hr hx).2
    rw [← Mealy.exec_append] at hcached
    obtain ⟨-, cfg, hcfg, hconfig⟩ := coherent_exec b defaults _ name x hcached
    rw [Mealy.exec_append, Mealy.exec_concat, getConfig_registered hlater] at hcfg
    refine ⟨cfg, hcfg, hconfig, ?_⟩
    have hmerged := merged_of_getConfig hcfg
    rw [ResilienceRegistry.registerService_overrides] at hmerged
    exact hconfig ▸ hmerged
  · obtain ⟨p, e, q, rfl, rfl⟩ := Mealy.mem_log_iff.mp hr
    have hm := moved_record b defaults
      ((threads b defaults).exec ((threads b defaults).exec {} (es ++ [.register name o])) p) e
    rw [show (threads b defaults).out _ e = .raised name exc from hexc] at hm
    obtain ⟨thread, factory, he, -, hcause⟩ := hm.raised
    rw [Mealy.exec_concat, getConfig_registered fun e he => hlater e (List.mem_append_left _ he)] at hcause
    exact ⟨thread, factory, he, hcause⟩
  · have hfinal := (cached_exec hlater hr hx).2
    rw [(cached_exec hlater hr' hx').2] at hfinal
    exact (Option.some.inj hfinal).symm

/-- Two calls between two registrations, with a reset between them. -/
def resetBetween : List Event :=
  [.register "svc" fun _ => none, .read 0 "svc", .enter 0 none, .reset, .read 0 "svc", .enter 0 none,
    .register "svc" fun _ => none]

/-- `{"circuit_breaker": {"fail_max": "many"}}` -/
def unreadable : String → Option Dict := fun part =>
  if part = "circuit_breaker" then some fun field => if field = "fail_max" then some (.str "many") else none else none

/-- The two calls get two objects; and a service whose overrides are no numbers gets none. -/
theorem reset_between_registrations :
    (∃ x x', (threads silentBuiltins {}).outs {} resetBetween =
      [.done, .missed, .returned "svc" x, .done, .missed, .returned "svc" x', .done] ∧ x ≠ x') ∧
    (threads silentBuiltins {}).outs {} [.register "svc" unreadable, .read 0 "svc", .enter 0 none] =
      [.done, .missed, .raised "svc" ⟨.valueError, 0⟩] := by
  refine ⟨⟨⟨0, "svc", {}⟩, ⟨1, "svc", {}⟩, rfl, fun h => ?_⟩, rfl⟩
  cases congrArg BuiltBreaker.ident h

end RegistryThreads

end ResilienceKit

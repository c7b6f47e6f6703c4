import Mathlib.Data.List.Chain
import Mathlib.Tactic.Linarith
import ResilienceKit.Health.Backend
import ResilienceKit.Lib.Ensures

/-!
# Health.Tasks — the flags under any number of overlapping calls

Every call of a backend is a task of a pool: it is called with a request and runs the method, and at each of
its questions other tasks may take their steps.  `Turn` says what one step does to the flags; whatever the
methods are, the flags stay consistent, and between two recoveries there is one warning exactly when no
recovery finds the backend recovered already.
-/

namespace ResilienceKit

open Mealy (Timed Clocked log_concat exec_concat)
open Program Code

namespace RedisHealth

/-- What a task asks: what it is called for, and then the questions of the method. -/
inductive TaskAsk (C : Type)
  | called
  | asked (q : Ask C)

variable {C M α : Type} {R : C → Type}

@[reducible] def TaskAnswer (M : Type) (R : C → Type) : TaskAsk C → Type
  | .called => M
  | .asked q => Answer R q

abbrev TaskCode (M : Type) (R : C → Type) (α : Type) := Code (TaskAsk C) (TaskAnswer M R) PyExc α

def lifted (q : Ask C) : TaskCode M R (Answer R q) := perform (TaskAsk.asked q)

/-- A task. -/
def task (method : M → Py R α) : TaskCode M R α := do
  let request ← perform TaskAsk.called
  translate lifted (method request)

/-- The flags answer a task. -/
def serveTask (now : ℚ) (s : Flags) : (q : TaskAsk C) → TaskAnswer M R q → TaskAnswer M R q × Flags
  | .called, request => (request, s)
  | .asked q, a => s.serve now q a

abbrev Tasks (M : Type) (R : C → Type) (α : Type) :=
  Pool.Sys Flags (TaskAsk C) (TaskAnswer M R) (Except PyExc α)

abbrev TaskEvent (M : Type) (R : C → Type) := Timed ℚ (Pool.Ev (TaskAsk C) (TaskAnswer M R))

abbrev TaskStep (M : Type) (R : C → Type) (α : Type) :=
  Mealy.Step (Tasks M R α) (TaskEvent M R) (Pool.Out (TaskAsk C) (TaskAnswer M R))

/-- The calls of one backend, on the clock that it is given. -/
def backend (method : M → Py R α) :
    Mealy (Tasks M R α) (TaskEvent M R) (Pool.Out (TaskAsk C) (TaskAnswer M R)) :=
  Pool.machine serveTask (task method).run {}

/-! ### What is logged -/

/-- The lines that a backend logs. -/
inductive Notice
  | degraded
  | recovered
  deriving DecidableEq

/-- The line that a step logs. -/
def notice (r : TaskStep M R α) : Option Notice :=
  match r.out with
  | .resumed _ ⟨.asked (.markDegraded _), _⟩ _ => if r.pre.shared.logDegradedOnce then none else some .degraded
  | .resumed _ ⟨.asked .recover, _⟩ _ => some .recovered
  | _ => none

def notices (l : List (TaskStep M R α)) : List Notice := l.filterMap notice

/-- The step starts a probe: the time test of `_maybe_probe` has passed. -/
def probes (r : TaskStep M R α) : Bool :=
  match r.out with
  | .resumed _ ⟨.asked (.probeDue _), due⟩ _ => due
  | _ => false

/-- What one step does to the flags. -/
inductive Turn (r : TaskStep M R α) : Prop
  | still (hn : notice r = none) (hp : probes r = false) (h : r.post.shared = r.pre.shared)
  | degraded (hn : notice r = if r.pre.shared.logDegradedOnce then none else some .degraded)
      (hp : probes r = false) (h : r.post.shared = r.pre.shared.markDegraded r.ev.time)
  | recovered (hn : notice r = some .recovered) (hp : probes r = false)
      (h : r.post.shared = r.pre.shared.recover)
  | probed (id : ℕ) (interval : ℚ) (now : Option (TaskAsk C))
      (ho : r.out = .resumed id ⟨.asked (.probeDue interval), true⟩ now) (hn : notice r = none)
      (hdue : r.pre.shared.lastProbeAt + interval ≤ r.ev.time)
      (h : r.post.shared = { r.pre.shared with lastProbeAt := r.ev.time })

/-- **Inversion.** -/
theorem turn (method : M → Py R α) (s : Tasks M R α) (e : TaskEvent M R) :
    Turn ((backend method).record s e) := by
  cases Pool.moved serveTask (task method).run {} s e with
  | ignored ho h =>
    have ho' : ((backend method).record s e).out = .ignored := ho
    exact .still (by rw [notice, ho']) (by rw [probes, ho']) (congrArg Pool.Sys.shared h)
  | spawned id hfree ho h =>
    have ho' : ((backend method).record s e).out = _ := ho
    have hpost : ((backend method).record s e).post = _ := h
    have hshared : ((backend method).record s e).post.shared = s.shared := by rw [hpost]; rfl
    exact .still (by rw [notice, ho']) (by rw [probes, ho']) hshared
  | resumed id q next a₀ a shared hat hserve ho h =>
    have ho' : ((backend method).record s e).out = _ := ho
    have hshared : ((backend method).record s e).post.shared = shared := congrArg Pool.Sys.shared h
    have hflags : (serveTask e.time s.shared q a₀).2 = shared := congrArg Prod.snd hserve
    have hreply : (serveTask e.time s.shared q a₀).1 = a := congrArg Prod.fst hserve
    cases q with
    | called =>
      exact .still (by rw [notice, ho']) (by rw [probes, ho']) (hshared.trans hflags.symm)
    | asked q =>
      cases q with
      | healthy =>
        exact .still (by rw [notice, ho']) (by rw [probes, ho']) (hshared.trans hflags.symm)
      | degradedSince =>
        exact .still (by rw [notice, ho']) (by rw [probes, ho']) (hshared.trans hflags.symm)
      | markDegraded exc =>
        exact .degraded (by rw [notice, ho']) (by rw [probes, ho']) (hshared.trans hflags.symm)
      | recover =>
        exact .recovered (by rw [notice, ho']) (by rw [probes, ho']) (hshared.trans hflags.symm)
      | probeDue interval =>
        have hdue : (s.shared.probeDue interval e.time).1 = a := hreply
        have hpost : (s.shared.probeDue interval e.time).2 = shared := hflags
        unfold Flags.probeDue at hdue hpost
        split_ifs at hdue hpost with hearly
        · obtain rfl : false = a := hdue
          exact .still (by rw [notice, ho']) (by rw [probes, ho']) (hshared.trans hpost.symm)
        · obtain rfl : true = a := hdue
          refine .probed id interval _ ho' (by rw [notice, ho']) ?_ (hshared.trans hpost.symm)
          show s.shared.lastProbeAt + interval ≤ e.time
          linarith
      | ping =>
        exact .still (by rw [notice, ho']) (by rw [probes, ho']) (hshared.trans hflags.symm)
      | await c =>
        exact .still (by rw [notice, ho']) (by rw [probes, ho']) (hshared.trans hflags.symm)

/-! ### The flags agree with each other -/

/-- `healthy`, `degraded_since is None` and `not log_degraded_once` are equivalent. -/
def Flags.Consistent (s : Flags) : Prop :=
  (s.healthy = true ↔ s.degradedSince = none) ∧ (s.healthy = true ↔ s.logDegradedOnce = false)

theorem Flags.consistent_recover (s : Flags) : s.recover.Consistent := by
  simp [Flags.Consistent, Flags.recover]

theorem Flags.Consistent.markDegraded {s : Flags} (h : s.Consistent) (now : ℚ) :
    (s.markDegraded now).Consistent := by
  obtain ⟨hsince, hlog⟩ := h
  unfold Flags.markDegraded
  cases hh : s.healthy with
  | true =>
    have hquiet : s.logDegradedOnce = false := hlog.mp hh
    simp [Flags.Consistent, hquiet]
  | false =>
    have hloud : s.logDegradedOnce = true := by
      rw [hh] at hlog
      simpa using hlog
    rw [hh] at hsince
    simpa [Flags.Consistent, hloud, hh] using hsince

theorem consistent (method : M → Py R α) (es : List (TaskEvent M R)) :
    ((backend method).exec (backend method).init es).shared.Consistent := by
  refine Mealy.log_induct (backend method) (P := fun _ s => s.shared.Consistent) ?_ (fun l s e hI => ?_) es
  · exact ⟨by simp [backend, Pool.machine], by simp [backend, Pool.machine]⟩
  · cases turn method s e with
    | still hn hp h =>
      have hpost : ((backend method).next s e).shared = s.shared := h
      rw [hpost]
      exact hI
    | degraded hn hp h =>
      have hpost : ((backend method).next s e).shared = s.shared.markDegraded e.time := h
      rw [hpost]
      exact hI.markDegraded _
    | recovered hn hp h =>
      have hpost : ((backend method).next s e).shared = s.shared.recover := h
      rw [hpost]
      exact Flags.consistent_recover _
    | probed id interval now ho hn hdue h =>
      have hpost : ((backend method).next s e).shared = { s.shared with lastProbeAt := e.time } := h
      rw [hpost]
      exact hI

/-! ### One warning between two recoveries -/

/-- Between two consecutive recoveries stands exactly one warning. -/
def OneWarning (ns : List Notice) : Prop :=
  ∀ p mid q, ns = p ++ .recovered :: (mid ++ .recovered :: q) → .recovered ∉ mid → mid = [.degraded]

/-- The two lines are not both of the kind. -/
def NotBoth (n a b : Notice) : Prop := ¬ (a = n ∧ b = n)

/-- Where no two warnings follow each other, one warning is a matter of the recoveries. -/
theorem oneWarning_iff {ns : List Notice} (h : ns.IsChain (NotBoth .degraded)) :
    OneWarning ns ↔ ns.IsChain (NotBoth .recovered) := by
  rw [List.isChain_iff_forall_rel_of_append_cons_cons] at h ⊢
  constructor
  · rintro hone a b p q heq ⟨rfl, rfl⟩
    cases hone p [] q heq (by simp)
  · intro hchain p mid q heq hmid
    have hkind : ∀ n ∈ mid, n = .degraded := by
      intro n hn
      cases n with
      | degraded => rfl
      | recovered => exact absurd hn hmid
    rcases mid with _ | ⟨a, _ | ⟨b, mid⟩⟩
    · exact absurd ⟨rfl, rfl⟩ (hchain heq)
    · rw [hkind a (by simp)]
    · have heq' : ns = (p ++ [.recovered]) ++ a :: b :: (mid ++ .recovered :: q) := by simpa using heq
      exact absurd ⟨hkind a (by simp), hkind b (by simp)⟩ (h heq')

theorem isChain_concat {α : Type} {S : α → α → Prop} {l : List α} {a : α} :
    (l ++ [a]).IsChain S ↔ l.IsChain S ∧ ∀ b ∈ l.getLast?, S b a := by
  rw [List.isChain_append]
  simp

/-- Every recovery but the first finds the backend degraded. -/
def FindsDegraded (method : M → Py R α) (es : List (TaskEvent M R)) : Prop :=
  (backend method).Along (fun l s e => notice ((backend method).record s e) = some .recovered →
    .recovered ∈ notices l → s.shared.healthy = false) (backend method).init es

theorem notices_concat (l : List (TaskStep M R α)) (r : TaskStep M R α) :
    notices (l ++ [r]) = notices l ++ (notice r).toList := by
  unfold notices
  rw [List.filterMap_append, List.filterMap_cons]
  cases notice r <;> rfl

/-- The last line tells whether a warning is due. -/
structure Logged (l : List (TaskStep M R α)) (s : Flags) : Prop where
  last : s.logDegradedOnce = true ↔ (notices l).getLast? = some .degraded
  chain : (notices l).IsChain (NotBoth .degraded)

theorem logged (method : M → Py R α) (es : List (TaskEvent M R)) :
    Logged ((backend method).log (backend method).init es)
      ((backend method).exec (backend method).init es).shared := by
  refine Mealy.log_induct (backend method) (P := fun l s => Logged l s.shared) ?_ (fun l s e hI => ?_) es
  · exact ⟨by simp [backend, Pool.machine, notices], by simp [notices]⟩
  · obtain ⟨hlast, hchain⟩ := hI
    have hquiet : notice ((backend method).record s e) = none →
        ((backend method).next s e).shared.logDegradedOnce = s.shared.logDegradedOnce →
        Logged (l ++ [(backend method).record s e]) ((backend method).next s e).shared := by
      intro hn hflag
      have hsame : notices (l ++ [(backend method).record s e]) = notices l := by
        rw [notices_concat, hn]
        simp
      exact ⟨by rw [hsame, hflag, hlast], by rw [hsame]; exact hchain⟩
    cases turn method s e with
    | still hn hp h => exact hquiet hn (congrArg Flags.logDegradedOnce h)
    | probed id interval now ho hn hdue h =>
      have hpost : ((backend method).next s e).shared = { s.shared with lastProbeAt := e.time } := h
      exact hquiet hn (by rw [hpost])
    | recovered hn hp h =>
      have hflag : ((backend method).next s e).shared.logDegradedOnce = false := congrArg Flags.logDegradedOnce h
      refine ⟨?_, ?_⟩
      · rw [hflag, notices_concat, hn]
        simp
      · rw [notices_concat, hn]
        exact isChain_concat.mpr ⟨hchain, fun b _ => by rintro ⟨-, h⟩; cases h⟩
    | degraded hn hp h =>
      have hflag : ((backend method).next s e).shared.logDegradedOnce = true :=
        (congrArg Flags.logDegradedOnce h).trans (Flags.markDegraded_logDegradedOnce _ _)
      cases hb : s.shared.logDegradedOnce with
      | true => exact hquiet (hn.trans (if_pos hb)) (hflag.trans hb.symm)
      | false =>
        have hwarn : notice ((backend method).record s e) = some .degraded := by
          rw [hn, Mealy.record_pre, hb]
          rfl
        refine ⟨?_, ?_⟩
        · rw [hflag, notices_concat, hwarn]
          simp
        · rw [notices_concat, hwarn]
          refine isChain_concat.mpr ⟨hchain, fun b hb' => ?_⟩
          rintro ⟨rfl, -⟩
          rw [hlast.mpr hb'] at hb
          cases hb

/-- **Between two consecutive recoveries there is exactly one warning** if and only if every recovery but the
first finds the backend degraded. -/
theorem warns_once_iff (method : M → Py R α) (es : List (TaskEvent M R)) :
    OneWarning (notices ((backend method).log (backend method).init es)) ↔ FindsDegraded method es := by
  rw [oneWarning_iff (logged method es).chain]
  induction es using List.reverseRecOn with
  | nil => exact ⟨fun _ => Mealy.Along.nil, fun _ => by simp [notices]⟩
  | append_singleton es e ih =>
    set l := (backend method).log (backend method).init es with hl
    set s := (backend method).exec (backend method).init es with hs
    have hconcat : FindsDegraded method (es ++ [e]) ↔ FindsDegraded method es ∧
        (notice ((backend method).record s e) = some .recovered → .recovered ∈ notices l →
          s.shared.healthy = false) :=
      ⟨fun h => ⟨h.of_append, h.last⟩, fun h => h.1.concat h.2⟩
    rw [hconcat, ← ih, log_concat, ← hl, ← hs, notices_concat]
    have hother : notice ((backend method).record s e) ≠ some .recovered →
        (List.IsChain (NotBoth .recovered) (notices l ++ (notice ((backend method).record s e)).toList) ↔
          List.IsChain (NotBoth .recovered) (notices l)) := by
      intro hne
      cases hn : notice ((backend method).record s e) with
      | none => simp
      | some n =>
        rw [Option.toList_some, isChain_concat]
        refine and_iff_left fun b _ => ?_
        rintro ⟨-, rfl⟩
        exact hne hn
    by_cases hn : notice ((backend method).record s e) = some .recovered
    · rw [hn, Option.toList_some, isChain_concat]
      refine and_congr_right fun _ => ?_
      -- the last line is a warning exactly when the flags are down
      have hflag := (consistent method es).2
      rw [← hs] at hflag
      have hlast := (logged method es).last
      rw [← hl, ← hs] at hlast
      constructor
      · intro hne _ hmem
        cases hg : (notices l).getLast? with
        | none =>
          rw [List.getLast?_eq_none_iff.mp hg] at hmem
          cases hmem
        | some b =>
          cases b with
          | degraded =>
            rw [hlast.mpr hg] at hflag
            simpa using hflag
          | recovered => exact absurd ⟨rfl, rfl⟩ (hne _ hg)
      · rintro hfind b hb ⟨rfl, -⟩
        rw [hfind rfl (List.mem_of_getLast? hb)] at hflag
        have hwarned : s.shared.logDegradedOnce = true := by simpa using hflag
        rw [hlast.mp hwarned] at hb
        cases hb
    · rw [hother hn]
      exact (and_iff_left fun h => absurd h hn).symm

/-! ### Probes -/

/-- Two probes never start less than `interval` apart. -/
def Spaced (interval : ℚ) (l : List (TaskStep M R α)) : Prop :=
  l.Pairwise fun r r' => probes r = true → probes r' = true → r.ev.time + interval ≤ r'.ev.time

/-- A question that probes, if it does, at this interval. -/
def ProbesEvery (interval : ℚ) (q : Ask C) : Prop := ∀ i, q = .probeDue i → i = interval

theorem task_asks {P : Ask C → Prop} {method : M → Py R α} (h : ∀ m, Asks P (method m)) :
    Program.Asks (fun q => ∀ q', q = .asked q' → P q') (task method).run := by
  refine (Asks.perform (P := fun q => ∀ q', q = TaskAsk.asked q' → P q') ?_).bind fun m => ?_
  · rintro q' ⟨⟩
  · refine (h m).translate fun q hq => Asks.perform ?_
    rintro q' heq
    obtain rfl := TaskAsk.asked.inj heq
    exact hq

/-! ### Postconditions of the methods -/

section Post

variable {β : Type} {Φ : List (Exchange (Answer R)) → Except PyExc α → Prop} {h : List (Exchange (Answer R))}

theorem ensures_await (c : C) {Φ : List (Exchange (Answer R)) → Except PyExc (R c) → Prop} :
    Ensures Φ h (await c : Py R (R c)) ↔ ∀ r, Φ (h ++ [⟨.await c, r⟩]) r := by
  rw [await, ensures_perform_bind]
  exact forall_congr' fun r => ensures_ofExcept r

theorem ensures_degrading {body : Py R β} {fallback : Py R α} {orElse : β → Py R α}
    (hf : ∀ h, Ensures Φ h fallback) (he : ∀ h e, Φ h (.error e))
    (hb : Ensures (ends (fun h b => Ensures Φ h (orElse b)) fun _ _ => True) h body) :
    Ensures Φ h (degrading body fallback orElse) := by
  refine (ensures_tryElse _ _ _).mpr (hb.mono fun h r hr => ?_)
  cases r with
  | ok b => exact hr
  | error exc =>
    show Ensures Φ h (if isinstance exc .redisError then do markDegraded exc; fallback else throw exc)
    split_ifs
    · exact ensures_bind_of (fun h _ => hf h) he
    · exact he h exc

theorem ensures_guarded {interval : ℚ} {command : Py R β} {fallback : Py R α} {orElse : β → Py R α}
    (hf : ∀ h, Ensures Φ h fallback) (he : ∀ h e, Φ h (.error e))
    (hc : ∀ h, Ensures (ends (fun h b => Ensures Φ h (orElse b)) fun _ _ => True) h command) :
    Ensures Φ h (guarded interval command fallback orElse) := by
  refine ensures_bind_of (fun h primary => ?_) he
  split_ifs
  · exact ensures_degrading hf he (hc h)
  · exact hf h

end Post

/-- What every call of a method ensures, its tasks ensure. -/
theorem task_ensures {Φ : M → List (Exchange (Answer R)) → Except PyExc α → Prop} {method : M → Py R α}
    (h : ∀ m, Ensures (Φ m) [] (method m)) : Program.Ensures (fun g r => ∃ m h, Φ m h r ∧
      g = ⟨.called, m⟩ :: h.map fun x => ⟨TaskAsk.asked x.1, x.2⟩) [] (task method).run := by
  refine (ensures_perform_bind (A := TaskAnswer M R) (h := []) TaskAsk.called _).mpr fun m => ?_
  refine (h m).translate (I := fun h g => g = ⟨.called, m⟩ :: h.map fun x => ⟨TaskAsk.asked x.1, x.2⟩)
    rfl ?_ ?_
  · rintro h g q rfl
    refine (ensures_perform (TaskAsk.asked q)).mpr fun a => ?_
    simp [ends]
  · rintro h g r rfl hr
    exact ⟨m, h, hr, rfl⟩

/-- **At most one probe in an interval**, on a clock that does not go back. -/
theorem probes_spaced {method : M → Py R α} {interval : ℚ} (hm : ∀ m, Asks (ProbesEvery interval) (method m))
    {es : List (TaskEvent M R)} (hc : Clocked es) :
    Spaced interval ((backend method).log (backend method).init es) := by
  have hinv : Spaced interval ((backend method).log (backend method).init es) ∧
      ∀ r ∈ (backend method).log (backend method).init es, probes r = true →
        r.ev.time ≤ ((backend method).exec (backend method).init es).shared.lastProbeAt := by
    induction es using List.reverseRecOn with
    | nil => exact ⟨List.Pairwise.nil, by simp⟩
    | append_singleton es e ih =>
      obtain ⟨hspaced, hlast⟩ := ih hc.of_append
      have hlate : ∀ r ∈ (backend method).log (backend method).init es, r.ev.time ≤ e.time := hc.along.last
      set l := (backend method).log (backend method).init es with hl
      set s := (backend method).exec (backend method).init es with hs
      have hlog : (backend method).log (backend method).init (es ++ [e]) = l ++ [(backend method).record s e] :=
        log_concat _ _ _ _
      have hquiet : probes ((backend method).record s e) = false →
          ((backend method).next s e).shared.lastProbeAt = s.shared.lastProbeAt →
          Spaced interval (l ++ [(backend method).record s e]) ∧
            ∀ r ∈ l ++ [(backend method).record s e], probes r = true →
              r.ev.time ≤ ((backend method).next s e).shared.lastProbeAt := by
        intro hp hflag
        refine ⟨List.pairwise_append.mpr ⟨hspaced, by simp, ?_⟩, ?_⟩
        · intro r _ r' hr' _ hp'
          rw [List.mem_singleton.mp hr', hp] at hp'
          cases hp'
        · intro r hr hpr
          rcases List.mem_append.mp hr with hr | hr
          · rw [hflag]
            exact hlast r hr hpr
          · rw [List.mem_singleton.mp hr, hp] at hpr
            cases hpr
      rw [hlog, exec_concat, ← hs]
      cases turn method s e with
      | still hn hp h => exact hquiet hp (congrArg Flags.lastProbeAt h)
      | recovered hn hp h => exact hquiet hp ((congrArg Flags.lastProbeAt h).trans rfl)
      | degraded hn hp h =>
        exact hquiet hp ((congrArg Flags.lastProbeAt h).trans (Flags.markDegraded_lastProbeAt _ _))
      | probed id i now ho hn hdue h =>
        have hpost : ((backend method).next s e).shared = { s.shared with lastProbeAt := e.time } := h
        have hmem : (backend method).record s e ∈ (backend method).log (backend method).init (es ++ [e]) := by
          rw [hlog]
          simp
        obtain rfl : i = interval := Pool.asks (task_asks hm) hmem ho _ rfl i rfl
        have hnow : s.shared.lastProbeAt + i ≤ e.time := hdue
        refine ⟨List.pairwise_append.mpr ⟨hspaced, by simp, ?_⟩, ?_⟩
        · intro r hr r' hr' hpr _
          rw [List.mem_singleton.mp hr', Mealy.record_ev]
          have := hlast r hr hpr
          linarith
        · intro r hr hpr
          rw [hpost]
          rcases List.mem_append.mp hr with hr | hr
          · exact hlate r hr
          · rw [List.mem_singleton.mp hr, Mealy.record_ev]
  exact hinv.1

end RedisHealth

end ResilienceKit

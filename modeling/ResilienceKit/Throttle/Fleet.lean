import Mathlib.Algebra.BigOperators.Ring.Finset
import Mathlib.Algebra.Order.BigOperators.Group.Finset
import ResilienceKit.Health.Flags
import ResilienceKit.Lib.RemoteCalls
import ResilienceKit.Throttle.Agreement
import ResilienceKit.Throttle.OneRate

/-!
# Throttle.Fleet — many pods, one Redis, any outage

Every pod has a `RedisAsyncThrottle` with its own flags and its own fallback; all pods share one server.  Their
calls overlap; commands and replies are delayed or lost, a call may fail at any await, and a command whose caller
has given up may still run later.  A throttle that fails closed keeps the global limit through all of this; one
that fails open lets every pod have the limit once more.
-/

namespace ResilienceKit

open Mealy (Timed Clocked)
open Program Code RedisHealth Throttle
open RedisAsyncThrottle (Ans Config)
open SlidingWindow (Reply seqKey)
open ThrottleCalls (Await Result Request Returned)

namespace ThrottleFleet

abbrev Pod := ℕ

/-- The two clocks of a pod at each microsecond of the server's; the first shows floats. -/
structure Clocks where
  now : ℕ → ℚ
  monotonic : ℕ → ℚ
  round_now : ∀ t, Binary64.round (now t) = now t

structure PodState where
  flags : Flags := {}
  fallback : InMemoryAsyncThrottle := {}

/-- What a client makes of the server's answer to the script. -/
def scriptReply : Ans → Except PyExc Reply
  | .replied r => .ok r
  | _ => .error ⟨.responseError, 0⟩

/-- The awaits that are commands on the keyspace. -/
def wire : (q : RedisHealth.Ask Await) → Option (Remote.Wire Op Ans PyExc (RedisHealth.Answer Result q))
  | .await (.evalsha key rate) => some ⟨.check key rate, scriptReply, .error⟩
  | .await (.delete key) => some ⟨.reset key, fun _ => .ok (), .error⟩
  | _ => none

/-- What a pod answers itself; the other awaits are answered in any way. -/
def serve (clocks : Pod → Clocks) (t : ℕ) (pod : Pod) (s : PodState) :
    (q : RedisHealth.Ask Await) → RedisHealth.Answer Result q → RedisHealth.Answer Result q × PodState
  | .await .now, _ => (.ok ((clocks pod).now t), s)
  | .await (.fallbackCheck key rate), _ =>
    let (fallback, d) := s.fallback.check ((clocks pod).now t) key rate
    (.ok d, { s with fallback })
  | .await (.fallbackReset key), _ => (.ok (), { s with fallback := s.fallback.reset key })
  | q, a =>
    let (a, flags) := s.flags.serve ((clocks pod).monotonic t) q a
    (a, { s with flags })

/-- The pods and their Redis. -/
def net (p : String) (cfg : Config) (clocks : Pod → Clocks) :
    Remote.Net Redis.Db ℕ Pod PodState Request Op Ans PyExc (RedisHealth.Ask Await) (RedisHealth.Answer Result)
      (Except PyExc Returned) where
  server := RedisAsyncThrottle.throttle p
  wire := wire
  serve := serve clocks
  prog m := (ThrottleCalls.method cfg m).run
  node _ := {}

abbrev Event := Timed ℕ (Remote.Ev Pod Request PyExc (RedisHealth.Ask Await) (RedisHealth.Answer Result))

variable {p key : String} {cfg : Config} {clocks : Pod → Clocks} {rate : Rate} {es : List Event}

/-- The fallback of a pod is the in-process throttle on the clock of the pod. -/
def fallback (p : String) (cfg : Config) (clocks : Pod → Clocks) :
    Remote.Local (net p cfg clocks) InMemoryAsyncThrottle.throttle where
  clock pod t := (clocks pod).now t
  view := PodState.fallback
  op
    | .await (.fallbackCheck key rate) => some (.check key rate)
    | .await (.fallbackReset key) => some (.reset key)
    | _ => none
  answer
    | .await (.fallbackCheck _ _), .ok d => some (.decided d)
    | .await (.fallbackReset _), .ok _ => some .resetDone
    | _, _ => none
  step := by
    intro t pod s q d a₀ hop
    cases q with
    | await c =>
      cases c with
      | fallbackCheck key rate =>
        obtain rfl := Option.some.inj hop
        exact ⟨rfl, rfl⟩
      | fallbackReset key =>
        obtain rfl := Option.some.inj hop
        exact ⟨rfl, rfl⟩
      | sha => cases hop
      | scriptLoad => cases hop
      | evalsha key rate => cases hop
      | delete key => cases hop
      | now => cases hop
    | healthy => cases hop
    | degradedSince => cases hop
    | markDegraded exc => cases hop
    | recover => cases hop
    | probeDue interval => cases hop
    | ping => cases hop
  still := by
    intro t pod s q a₀ hop
    cases q with
    | await c =>
      cases c with
      | fallbackCheck key rate => cases hop
      | fallbackReset key => cases hop
      | sha => rfl
      | scriptLoad => rfl
      | evalsha key rate => rfl
      | delete key => rfl
      | now => rfl
    | healthy => rfl
    | degradedSince => rfl
    | markDegraded exc => rfl
    | recover => rfl
    | probeDue interval => rfl
    | ping => rfl

/-! ### What the calls operate on -/

/-- The throttle operation that a question is, at the server or at the fallback. -/
def operation : RedisHealth.Ask Await → Option Op
  | .await (.evalsha key rate) => some (.check key rate)
  | .await (.delete key) => some (.reset key)
  | .await (.fallbackCheck key rate) => some (.check key rate)
  | .await (.fallbackReset key) => some (.reset key)
  | _ => none

/-- The throttle operation that a request is. -/
def requested : Request → Option Op
  | .check key rate => some (.check key rate)
  | .reset key => some (.reset key)
  | _ => none

/-- A call operates on what it was called for. -/
theorem asks_own (cfg : Config) (m : Request) :
    Asks (fun q => ∀ op, operation q = some op → requested m = some op) (ThrottleCalls.method cfg m) := by
  have hflag : ∀ q : RedisHealth.Ask Await, Flagged q → (∀ i, q ≠ .probeDue i) →
      ∀ op, operation q = some op → requested m = some op := by
    intro q hq _ op hop
    cases q with
    | await c => exact absurd rfl (hq c)
    | _ => cases hop
  have hprobe : ∀ op, operation (.probeDue cfg.probeInterval) = some op → requested m = some op := by
    rintro op ⟨⟩
  have hother : ∀ c : Await, operation (.await c) = none →
      ∀ op, operation (.await c) = some op → requested m = some op := by
    intro c hc op hop
    rw [hc] at hop
    cases hop
  cases m with
  | check key rate =>
    have heval : Asks (fun q => ∀ op, operation q = some op → requested (.check key rate) = some op)
        (ThrottleCalls.eval key rate) := by
      have hrun : Asks (fun q => ∀ op, operation q = some op → requested (.check key rate) = some op)
          (tryElse (await (Await.evalsha key rate))
            (fun exc => if isinstance exc .noScriptError then do
                await Await.scriptLoad
                await (Await.evalsha key rate)
              else throw exc) fun res => return res : ThrottleCalls.Py Reply) := by
        refine .tryElse (asks_await fun op hop => hop) (fun exc => ?_) fun res => .pure _
        split_ifs
        · exact .bind (asks_await (hother .scriptLoad rfl)) fun _ => asks_await fun op hop => hop
        · exact .throw _
      refine .bind (asks_await (hother .sha rfl)) fun cached => ?_
      cases cached with
      | false => exact .bind (asks_await (hother .scriptLoad rfl)) fun _ => hrun
      | true => exact hrun
    have hdegraded : Asks (fun q => ∀ op, operation q = some op → requested (.check key rate) = some op)
        (ThrottleCalls.degradedDecision cfg key rate) := by
      unfold ThrottleCalls.degradedDecision
      cases cfg.failMode with
      | «open» => exact asks_await fun op hop => hop
      | closed => exact .bind (asks_await (hother .now rfl)) fun _ => .pure _
    exact .bind (asks_guarded hflag hprobe heval hdegraded fun res =>
      .bind (asks_await (hother .now rfl)) fun _ => .pure _) fun _ => .pure _
  | reset key =>
    exact .bind (.bind (asks_degrading (fun exc => hflag _ (by simp [Flagged]) (by simp))
      (asks_await fun op hop => hop) (.pure _) fun _ => .pure _) fun _ => asks_await fun op hop => hop)
      fun _ => .pure _
  | healthCheck => exact .bind (asks_healthCheck hflag _) fun _ => .pure _
  | tryRecover => exact .bind (asks_tryRecover hflag) fun _ => .pure _

/-- The operation checks `key` with `rate` only, does not reset it, and does not confuse it with a counter. -/
def Plain (key : String) (rate : Rate) (op : Op) : Prop :=
  (∀ r, op = .check key r → r = rate) ∧ op ≠ .reset key ∧ op.key ≠ seqKey key ∧ key ≠ seqKey op.key

/-- The requests of a fleet that checks `key` with `rate` and does not reset it. -/
def OneRate (key : String) (rate : Rate) (m : Request) : Prop :=
  ∀ op, requested m = some op → Plain key rate op

theorem asked (hes : Remote.Requested (OneRate key rate) es) :
    Remote.Asked (net p cfg clocks) (fun q => ∀ op, operation q = some op → Plain key rate op)
      (Remote.history (net p cfg clocks) es) (Remote.after (net p cfg clocks) es) := by
  refine Remote.asked (fun m hm => ?_) hes
  have hasks : Asks (fun q => ∀ op, operation q = some op → Plain key rate op) (ThrottleCalls.method cfg m) :=
    (asks_own cfg m).mono fun _ hq op hop => hm op (hq op hop)
  exact hasks

/-- What the server is told about keys is plain. -/
theorem served_plain (hes : Remote.Requested (OneRate key rate) es) :
    ∀ e ∈ Remote.served (Remote.history (net p cfg clocks) es), Plain key rate e.ev := by
  intro e he
  obtain ⟨y, hy, rfl⟩ := List.mem_map.mp he
  obtain ⟨q, x, hq, hx, hc⟩ := (asked hes).executed y hy
  refine hq _ ?_
  show operation q = some y.command
  rw [hc]
  cases q with
  | await c =>
    cases c with
    | evalsha key rate =>
      obtain rfl := Option.some.inj hx
      rfl
    | delete key =>
      obtain rfl := Option.some.inj hx
      rfl
    | _ => cases hx
  | _ => cases hx

/-- What the fallback of a pod is told about keys is plain. -/
theorem consulted_plain (hes : Remote.Requested (OneRate key rate) es) (pod : Pod) :
    ∀ e ∈ ((fallback p cfg clocks).consultations pod (Remote.history (net p cfg clocks) es)).map Prod.fst,
      Plain key rate e.ev := by
  intro e he
  obtain ⟨x, hx, rfl⟩ := List.mem_map.mp he
  obtain ⟨r, hr, hc⟩ := List.mem_filterMap.mp hx
  unfold Remote.Local.consultation at hc
  split at hc
  · rename_i id node q a ho
    split_ifs at hc
    obtain ⟨d, hd, hc'⟩ := Option.bind_eq_some_iff.mp hc
    obtain ⟨w, -, rfl⟩ := Option.map_eq_some_iff.mp hc'
    refine (asked hes).answered r hr id node ⟨q, a⟩ ho _ ?_
    show operation q = some d
    cases q with
    | await c =>
      cases c with
      | fallbackCheck key rate => exact hd
      | fallbackReset key => exact hd
      | _ => cases hd
    | _ => cases hd
  · cases hc

/-! ### Who let a call in -/

/-- The script let the call `id` in for `key`, in its execution at `a`. -/
def ScriptGrant (p : String) (cfg : Config) (clocks : Pod → Clocks) (es : List Event) (key : String) (id a : ℕ) :
    Prop :=
  ∃ y rate, (id, y) ∈ Remote.deliveries (Remote.history (net p cfg clocks) es) ∧ y.command = .check key rate ∧
    y.answer.allowed = true ∧ y.at_ = a

/-- The fallback of `pod` let the call `id` in for `key` at `a`. -/
def FallbackGrant (p : String) (cfg : Config) (clocks : Pod → Clocks) (es : List Event) (key : String) (pod : Pod)
    (id a : ℕ) : Prop :=
  ∃ r ∈ Remote.history (net p cfg clocks) es, ∃ rate d,
    r.out = .answered id pod ⟨.await (.fallbackCheck key rate), .ok d⟩ ∧ d.allowed = true ∧ r.ev.time = a

/-- The call `id` of `pod` was a check of `key` and was let in. -/
def LetIn (p : String) (cfg : Config) (clocks : Pod → Clocks) (es : List Event) (key : String) (pod : Pod)
    (id : ℕ) : Prop :=
  ∃ rate d, Remote.ended (net p cfg clocks) es id = some (pod, .check key rate, .ok (.decided d)) ∧
    d.allowed = true

/-- Where an allowed decision comes from. -/
def Decided (cfg : Config) (m : Request) (h : List (Exchange (RedisHealth.Answer Result)))
    (d : ThrottleDecision) : Prop :=
  ∃ key rate, m = .check key rate ∧
    ((∃ reply : Reply, ⟨.await (.evalsha key rate), .ok reply⟩ ∈ h ∧ reply.allowed ≠ 0) ∨
      (cfg.failMode = .open ∧ ⟨.await (.fallbackCheck key rate), .ok d⟩ ∈ h))

theorem check_decided (cfg : Config) (key : String) (rate : Rate) (h : List (Exchange (RedisHealth.Answer Result))) :
    Ensures (ends (fun h d => d.allowed = true → Decided cfg (.check key rate) h d) fun _ _ => True) h
      (ThrottleCalls.check cfg key rate) := by
  refine ensures_guarded (fun h => ?_) (fun _ _ => trivial) fun h =>
    (ThrottleCalls.ensures_eval key rate h).mono ?_
  · unfold ThrottleCalls.degradedDecision
    cases hmode : cfg.failMode with
    | closed => exact ensures_bind_of (fun h now hallowed => by cases hallowed) fun _ _ => trivial
    | «open» =>
      refine (ensures_await _).mpr fun r => ?_
      cases r with
      | error exc => trivial
      | ok d =>
        intro _
        exact ⟨key, rate, rfl, .inr ⟨hmode, List.mem_append_right _ (List.mem_singleton.mpr rfl)⟩⟩
  · rintro h r hr
    cases r with
    | error exc => trivial
    | ok reply =>
      simp only [ends]
      refine (ensures_bind _ _).mpr ((ensures_await _).mpr fun r => ?_)
      cases r with
      | error exc => trivial
      | ok now =>
        intro hallowed
        refine ⟨key, rate, rfl, .inl ⟨reply, List.mem_append_left _ hr, ?_⟩⟩
        simpa [RedisAsyncThrottle.decision] using hallowed

theorem method_decided (cfg : Config) (m : Request) :
    Ensures (fun h r => ∀ d, r = .ok (.decided d) → d.allowed = true → Decided cfg m h d) []
      (ThrottleCalls.method cfg m) := by
  cases m with
  | check key rate =>
    refine (ensures_bind _ _).mpr ((check_decided cfg key rate []).mono fun h r hr => ?_)
    cases r with
    | ok d =>
      rintro d' heq hallowed
      obtain rfl : d = d' := by simpa using heq
      exact hr hallowed
    | error exc =>
      rintro d ⟨⟩
  | reset key => exact ensures_bind_of (fun h _ d heq => by cases heq) fun h e d heq => by cases heq
  | healthCheck => exact ensures_bind_of (fun h _ d heq => by cases heq) fun h e d heq => by cases heq
  | tryRecover => exact ensures_bind_of (fun h _ d heq => by cases heq) fun h e d heq => by cases heq

/-- **Every call that was let in was let in by someone**: by an execution of the script, or, where the throttle
fails open, by the fallback of its own pod. -/
theorem granted {pod : Pod} {id : ℕ} (h : LetIn p cfg clocks es key pod id) :
    (∃ a, ScriptGrant p cfg clocks es key id a) ∨
      (cfg.failMode = .open ∧ ∃ a, FallbackGrant p cfg clocks es key pod id a) := by
  obtain ⟨rate, d, hend, hallowed⟩ := h
  obtain ⟨tag, hc⟩ := Remote.calls_of_ended hend
  obtain ⟨key', rate', hm, hfrom⟩ := Remote.ensures (method_decided cfg) hend d rfl hallowed
  obtain ⟨rfl, rfl⟩ := Request.check.inj hm
  rcases hfrom with ⟨reply, hmem, hreply⟩ | ⟨hopen, hmem⟩
  · left
    cases Remote.origin es id _ hmem with
    | delivered x z hx hcommand ha hz =>
      obtain rfl := Option.some.inj hx
      refine ⟨z.at_, z, rate, hz, hcommand, ?_, rfl⟩
      cases hw : z.answer with
      | replied r =>
        rw [hw] at ha
        obtain rfl := Except.ok.inj ha
        simpa [Ans.allowed] using hreply
      | resetDone =>
        rw [hw] at ha
        cases ha
      | error e =>
        rw [hw] at ha
        cases ha
    | failed x exc hx ha =>
      obtain rfl := Option.some.inj hx
      cases ha
    | answered r node hx hr ho => cases hx
  · right
    cases Remote.origin es id _ hmem with
    | delivered x z hx hcommand ha hz => cases hx
    | failed x exc hx ha => cases hx
    | answered r node hx hr ho =>
      obtain ⟨c, hc', rfl⟩ := Remote.node_of_answered es r hr id node _ ho
      obtain rfl := Option.some.inj (hc.symm.trans hc')
      exact ⟨hopen, r.ev.time, r, hr, rate, d, ho, hallowed, rfl⟩

/-! ### How many -/

/-- The time `a` is in the window that ends at `t`; it is the script's, `int(per_seconds)` seconds long. -/
def Within (rate : Rate) (t a : ℕ) : Prop :=
  a ≤ t ∧ RedisAsyncThrottle.win (RedisAsyncThrottle.seconds rate) t a = true

/-- What a throttle over the whole run must meet: the clock of the server, and one rate of at least a second on
the key. -/
structure Limited (key : String) (rate : Rate) (es : List Event) : Prop where
  clocked : Clocked es
  short : es.length ≤ 10 ^ 14
  plain : Remote.Requested (OneRate key rate) es
  count : 0 ≤ rate.count
  seconds : 1 ≤ rate.perSeconds

theorem served_clocked (hc : Clocked es) :
    Clocked (Remote.served (Remote.history (net p cfg clocks) es)) := by
  have hsub := (Remote.served_time_sublist (Remote.history (net p cfg clocks) es))
  have htimes : ((Remote.history (net p cfg clocks) es).map fun r => r.ev.time).Pairwise (· ≤ ·) :=
    List.pairwise_map.mpr hc.log_pairwise
  exact List.pairwise_map.mp (htimes.sublist hsub)

theorem served_length_le : (Remote.served (Remote.history (net p cfg clocks) es)).length ≤ es.length := by
  have hsub := (Remote.served_time_sublist (Remote.history (net p cfg clocks) es)).length_le
  have hlog := congrArg List.length (Mealy.log_map_ev (Remote.machine (net p cfg clocks))
    (Remote.machine (net p cfg clocks)).init es)
  rw [List.length_map, List.length_map] at hsub
  rw [List.length_map] at hlog
  exact hsub.trans hlog.le

/-- **The script keeps the global limit**: no window holds more calls that the script let in. -/
theorem script_card_le (h : Limited key rate es) {S : Finset ℕ} {t : ℕ}
    (hS : ∀ id ∈ S, ∃ a, ScriptGrant p cfg clocks es key id a ∧ Within rate t a) :
    (S.card : ℤ) ≤ rate.count := by
  set fs := Remote.served (Remote.history (net p cfg clocks) es) with hfs
  have hplain : ∀ e ∈ fs, Plain key rate e.ev := served_plain h.plain
  let within : ℕ → Bool := fun a =>
    RedisAsyncThrottle.win (RedisAsyncThrottle.seconds rate) t a && decide (a ≤ t)
  have hcard : S.card ≤ ((net p cfg clocks).server.log (net p cfg clocks).server.init fs).countP
      fun r => admits Ans.allowed key r.ev.ev r.out && within r.ev.time := by
    refine Remote.card_le_served (p := fun x => admits Ans.allowed key x.2.1 x.2.2 && within x.1) es
      fun id hid => ?_
    obtain ⟨a, ⟨y, rate', hy, hc, hallowed, rfl⟩, hle, hwin⟩ := hS id hid
    refine ⟨y, hy, ?_⟩
    rw [hc]
    simp [admits, within, hallowed, hle, hwin]
  have hno : ∀ r ∈ (net p cfg clocks).server.log (net p cfg clocks).server.init fs, r.ev.ev ≠ .reset key := by
    intro r hr
    have hmem : r.ev ∈ ((net p cfg clocks).server.log (net p cfg clocks).server.init fs).map Mealy.Step.ev :=
      List.mem_map_of_mem hr
    rw [Mealy.log_map_ev] at hmem
    exact (hplain _ hmem).2.1
  rw [← countP_admissions hno] at hcard
  have hle := RedisAsyncThrottle.admitted_countP_le (p := p) h.count (RedisAsyncThrottle.pyInt_pos h.seconds)
    (served_clocked h.clocked) (fun e he r hop => (hplain e he).1 r hop) (fun e he => (hplain e he).2.2)
    (served_length_le.trans h.short) t
  exact (Int.ofNat_le.mpr hcard).trans hle

/-- The clocks of the pods do not go back, and up to `t` they gain no more than a microsecond on the server's. -/
structure Steady (clocks : Pod → Clocks) (t : ℕ) : Prop where
  mono : ∀ pod, Monotone (clocks pod).now
  speed : ∀ pod, ∀ a ≤ t,
    (clocks pod).now t - (clocks pod).now a ≤ Redis.clock t - Redis.clock a + 1 / 1000000

/-- **The fallback of a pod keeps the limit for the pod.** -/
theorem fallback_card_le (h : Limited key rate es) {t : ℕ} (hclocks : Steady clocks t) {pod : Pod}
    {S : Finset ℕ} (hS : ∀ id ∈ S, ∃ a, FallbackGrant p cfg clocks es key pod id a ∧ Within rate t a) :
    (S.card : ℤ) ≤ rate.count := by
  set fs := ((fallback p cfg clocks).consultations pod (Remote.history (net p cfg clocks) es)).map Prod.fst
    with hfs
  have hplain : ∀ e ∈ fs, Plain key rate e.ev := consulted_plain h.plain pod
  let within : ℚ → Bool := fun a =>
    InMemoryAsyncThrottle.win rate.perSeconds ((clocks pod).now t) a && decide (a ≤ (clocks pod).now t)
  have hcard : S.card ≤ (InMemoryAsyncThrottle.throttle.log InMemoryAsyncThrottle.throttle.init fs).countP
      fun r => admits InMemoryAsyncThrottle.Ans.allowed key r.ev.ev r.out && within r.ev.time := by
    refine (fallback p cfg clocks).card_le_consulted pod
      (p := fun x => admits InMemoryAsyncThrottle.Ans.allowed key x.2.1 x.2.2 && within x.1) es
      fun id hid => ?_
    obtain ⟨a, ⟨r, hr, rate', d, ho, hallowed, rfl⟩, hle, hwin⟩ := hS id hid
    refine ⟨r, hr, _, _, .check key rate', .decided d, ho, rfl, rfl, ?_⟩
    have hpos : 0 < rate.perSeconds := by linarith [h.seconds]
    have hsec : (RedisAsyncThrottle.seconds rate : ℚ) ≤ rate.perSeconds := by
      have hle' := RedisAsyncThrottle.pyInt_le hpos.le
      rwa [RedisAsyncThrottle.seconds_eq hpos, Int.cast_natCast] at hle'
    -- in whole microseconds the call is at least one short of leaving the window
    have hage : (t : ℚ) + 1 ≤ r.ev.time + RedisAsyncThrottle.seconds rate * 1000000 := by
      have hlt : t < r.ev.time + RedisAsyncThrottle.seconds rate * 1000000 := of_decide_eq_true hwin
      exact_mod_cast hlt
    have hin : within ((clocks pod).now r.ev.time) = true := by
      refine Bool.and_eq_true_iff.mpr ⟨decide_eq_true ?_, decide_eq_true (hclocks.mono pod hle)⟩
      refine Binary64.round_le ((clocks pod).round_now _) ?_
      have hspeed := hclocks.speed pod r.ev.time hle
      unfold Redis.clock at hspeed
      linarith
    show (admits InMemoryAsyncThrottle.Ans.allowed key (.check key rate') (.decided d) &&
      within ((clocks pod).now r.ev.time)) = true
    rw [hin]
    simp [admits, InMemoryAsyncThrottle.Ans.allowed, hallowed]
  have hno : ∀ r ∈ InMemoryAsyncThrottle.throttle.log InMemoryAsyncThrottle.throttle.init fs,
      r.ev.ev ≠ .reset key := by
    intro r hr
    have hmem : r.ev ∈ (InMemoryAsyncThrottle.throttle.log InMemoryAsyncThrottle.throttle.init fs).map
        Mealy.Step.ev := List.mem_map_of_mem hr
    rw [Mealy.log_map_ev] at hmem
    exact (hplain _ hmem).2.1
  rw [← countP_admissions hno] at hcard
  have hclocked : Clocked fs := by
    have hsub := (fallback p cfg clocks).time_sublist pod (Remote.history (net p cfg clocks) es)
    have htimes : ((Remote.history (net p cfg clocks) es).map
        fun r => (fallback p cfg clocks).clock pod r.ev.time).Pairwise (· ≤ ·) :=
      List.pairwise_map.mpr (h.clocked.log_pairwise.imp fun hle => hclocks.mono pod hle)
    exact List.pairwise_map.mp (htimes.sublist hsub)
  have hle := InMemoryAsyncThrottle.admitted_countP_le h.count hclocked
    (fun e he r hop => (hplain e he).1 r hop) ((clocks pod).now t)
  exact (Int.ofNat_le.mpr hcard).trans hle

/-- **Failing closed.**  In every run of the fleet (any outage, lost and late commands and replies, overlapping
calls) with one rate on a key: every call that was let in was let in by an execution of the script, and no window of
server time holds more of these than the rate allows. -/
theorem closed_keeps_limit (hclosed : cfg.failMode = .closed) (h : Limited key rate es) :
    (∀ pod id, LetIn p cfg clocks es key pod id → ∃ a, ScriptGrant p cfg clocks es key id a) ∧
      ∀ (t : ℕ) (S : Finset ℕ), (∀ id ∈ S, ∃ pod a, LetIn p cfg clocks es key pod id ∧
        ScriptGrant p cfg clocks es key id a ∧ Within rate t a) → (S.card : ℤ) ≤ rate.count := by
  refine ⟨fun pod id hin => ?_, fun t S hS => ?_⟩
  · rcases granted hin with hscript | ⟨hopen, -⟩
    · exact hscript
    · rw [hclosed] at hopen
      cases hopen
  · have hgrants : ∀ id ∈ S, ∃ a, ScriptGrant p cfg clocks es key id a ∧ Within rate t a := by
      intro id hid
      obtain ⟨pod, a, -, hgrant, hwithin⟩ := hS id hid
      exact ⟨a, hgrant, hwithin⟩
    exact script_card_le h hgrants

deriving instance DecidableEq for ThrottleCalls.Request

/-- Answers to the questions that neither the flags nor Redis answer. -/
def idle : (q : RedisHealth.Ask Await) → RedisHealth.Answer Result q
  | .healthy => true
  | .degradedSince => none
  | .markDegraded _ => ()
  | .recover => ()
  | .probeDue _ => false
  | .ping => .ok ()
  | .await .sha => .ok true
  | .await .scriptLoad => .ok ()
  | .await (.evalsha _ _) => .error ⟨.redisError, 0⟩
  | .await (.delete _) => .ok ()
  | .await .now => .ok 0
  | .await (.fallbackCheck _ _) => .error ⟨.redisError, 0⟩
  | .await (.fallbackReset _) => .ok ()

/-- A call that gets the reply of the script, then one of `pod` whose reply is lost. -/
def outage (pod : Pod) : List Event :=
  [⟨0, .spawn 0 0 (.check "k" ⟨1, 1⟩)⟩, ⟨0, .answer 0 idle⟩, ⟨0, .answer 0 idle⟩, ⟨0, .send 0⟩, ⟨0, .execute 0⟩,
    ⟨0, .deliver 0⟩, ⟨0, .answer 0 idle⟩,
    ⟨500000, .spawn 1 pod (.check "k" ⟨1, 1⟩)⟩, ⟨500000, .answer 1 idle⟩, ⟨500000, .answer 1 idle⟩,
    ⟨500000, .send 1⟩, ⟨500000, .execute 1⟩, ⟨500000, .fail 1 ⟨.redisError, 0⟩⟩, ⟨500000, .answer 1 idle⟩,
    ⟨500000, .answer 1 idle⟩]

/-- Every pod shows the time of the server. -/
def wallClock : Pod → Clocks := fun _ =>
  ⟨fun t => Binary64.round (Redis.clock t), fun t => Binary64.round (Redis.clock t),
    fun t => Binary64.round_round (Redis.clock t)⟩

/-- Up to `2 ^ 32` seconds the floats are less than a microsecond off. -/
theorem steady_wallClock {t : ℕ} (ht : t < 2 ^ 32 * 1000000) : Steady wallClock t := by
  have hround : ∀ a ≤ t, |Binary64.round (Redis.clock a) - Redis.clock a| ≤ 1 / 2000000 := by
    intro a ha
    have hlt : Redis.clock a < 2 ^ 32 := by
      have : (a : ℚ) < 2 ^ 32 * 1000000 := by exact_mod_cast ha.trans_lt ht
      unfold Redis.clock
      linarith
    refine (Binary64.abs_round_sub_le (by norm_num) (Redis.clock_nonneg a) hlt).trans ?_
    norm_num
  refine ⟨fun pod a b hab => Binary64.round_mono (Redis.clock_mono hab), fun pod a ha => ?_⟩
  have h1 := abs_le.mp (hround a ha)
  have h2 := abs_le.mp (hround t le_rfl)
  unfold wallClock
  linarith

theorem limited_outage (pod : Pod) : Limited "k" ⟨1, 1⟩ (outage pod) := by
  refine ⟨by simp [outage, Clocked], by simp [outage], fun e he id node m hev op hop => ?_, by decide, by norm_num⟩
  have hm : m = .check "k" ⟨1, 1⟩ := by
    simp only [outage, List.mem_cons, List.not_mem_nil, or_false] at he
    rcases he with rfl | rfl | rfl | rfl | rfl | rfl | rfl | rfl | rfl | rfl | rfl | rfl | rfl | rfl | rfl <;>
      cases hev <;> rfl
  subst hm
  obtain rfl := Option.some.inj hop
  refine ⟨fun r hr => (Op.check.inj hr).2.symm, by simp, ?_, ?_⟩ <;> simp [Op.key, seqKey]

theorem closed_keeps_limit_outage :
    Remote.ended (net "throttle" { failMode := .closed } wallClock) (outage 1) 0 =
        some (0, .check "k" ⟨1, 1⟩, .ok (.decided ⟨true, 0, 1, 1, 1⟩)) ∧
      Remote.ended (net "throttle" { failMode := .closed } wallClock) (outage 1) 1 =
        some (1, .check "k" ⟨1, 1⟩, .ok (.decided ⟨false, 0, 1, 1, 1⟩)) ∧
      ∀ (t : ℕ) (S : Finset ℕ),
        (∀ id ∈ S, ∃ pod a, LetIn "throttle" { failMode := .closed } wallClock (outage 1) "k" pod id ∧
          ScriptGrant "throttle" { failMode := .closed } wallClock (outage 1) "k" id a ∧ Within ⟨1, 1⟩ t a) →
        (S.card : ℤ) ≤ 1 :=
  ⟨by decide +kernel, by decide +kernel, (closed_keeps_limit rfl (limited_outage 1)).2⟩

/-- **Failing open.**  In every run of a fleet of `pods`, with clocks that do not run faster than the server's: no
window holds more calls that were let in than the limit once for Redis and once for every pod. -/
theorem open_multiplies_limit {t : ℕ} (hclocks : Steady clocks t) (h : Limited key rate es) (pods : Finset Pod)
    (S : Finset ℕ) (hS : ∀ id ∈ S, ∃ pod ∈ pods, LetIn p cfg clocks es key pod id ∧ ∃ a, Within rate t a ∧
      (ScriptGrant p cfg clocks es key id a ∨ FallbackGrant p cfg clocks es key pod id a)) :
    (S.card : ℤ) ≤ (pods.card + 1) * rate.count := by
  classical
  let scripted := S.filter fun id => ∃ a, ScriptGrant p cfg clocks es key id a ∧ Within rate t a
  let fellBack : Pod → Finset ℕ := fun pod =>
    S.filter fun id => ∃ a, FallbackGrant p cfg clocks es key pod id a ∧ Within rate t a
  have hcover : S ⊆ scripted ∪ pods.biUnion fellBack := by
    intro id hid
    obtain ⟨pod, hpod, -, a, hwithin, hgrant | hgrant⟩ := hS id hid
    · exact Finset.mem_union_left _ (Finset.mem_filter.mpr ⟨hid, a, hgrant, hwithin⟩)
    · exact Finset.mem_union_right _ (Finset.mem_biUnion.mpr
        ⟨pod, hpod, Finset.mem_filter.mpr ⟨hid, a, hgrant, hwithin⟩⟩)
  have hscript : (scripted.card : ℤ) ≤ rate.count :=
    script_card_le h fun id hid => (Finset.mem_filter.mp hid).2
  have hfallback : ∀ pod ∈ pods, ((fellBack pod).card : ℤ) ≤ rate.count := fun pod _ =>
    fallback_card_le h hclocks fun id hid => (Finset.mem_filter.mp hid).2
  have hcard : S.card ≤ scripted.card + ∑ pod ∈ pods, (fellBack pod).card :=
    calc S.card ≤ (scripted ∪ pods.biUnion fellBack).card := Finset.card_le_card hcover
      _ ≤ scripted.card + (pods.biUnion fellBack).card := Finset.card_union_le _ _
      _ ≤ scripted.card + ∑ pod ∈ pods, (fellBack pod).card := by
        have := Finset.card_biUnion_le (s := pods) (t := fellBack)
        omega
  have hsum : ((∑ pod ∈ pods, (fellBack pod).card : ℕ) : ℤ) ≤ pods.card * rate.count := by
    push_cast
    calc ∑ pod ∈ pods, ((fellBack pod).card : ℤ) ≤ ∑ _pod ∈ pods, rate.count := Finset.sum_le_sum hfallback
      _ = pods.card * rate.count := by rw [Finset.sum_const, nsmul_eq_mul]
  have hcard' : (S.card : ℤ) ≤ scripted.card + ((∑ pod ∈ pods, (fellBack pod).card : ℕ) : ℤ) := by
    exact_mod_cast hcard
  linarith

/-- Two calls in one window under a limit of one: Redis lets in the first, and the fallback of its pod the
second. -/
theorem open_multiplies_limit_outage :
    (∀ id ∈ ({0, 1} : Finset ℕ), ∃ pod ∈ ({0} : Finset Pod),
      LetIn "throttle" {} wallClock (outage 0) "k" pod id ∧ ∃ a, Within ⟨1, 1⟩ 500000 a ∧
        (ScriptGrant "throttle" {} wallClock (outage 0) "k" id a ∨
          FallbackGrant "throttle" {} wallClock (outage 0) "k" pod id a)) ∧
      ((({0, 1} : Finset ℕ).card : ℕ) : ℤ) ≤ ((({0} : Finset Pod).card : ℕ) + 1) * 1 := by
  have hletin : ∀ id ∈ ({0, 1} : Finset ℕ), ∃ pod ∈ ({0} : Finset Pod),
      LetIn "throttle" {} wallClock (outage 0) "k" pod id ∧ ∃ a, Within ⟨1, 1⟩ 500000 a ∧
        (ScriptGrant "throttle" {} wallClock (outage 0) "k" id a ∨
          FallbackGrant "throttle" {} wallClock (outage 0) "k" pod id a) := by
    intro id hid
    rcases Finset.mem_insert.mp hid with rfl | hid
    · have hend : Remote.ended (net "throttle" {} wallClock) (outage 0) 0 =
          some (0, .check "k" ⟨1, 1⟩, .ok (.decided ⟨true, 0, 1, 1, 1⟩)) := by
        decide +kernel
      have hdelivered : (0, ⟨0, 0, .check "k" ⟨1, 1⟩, .replied ⟨1, 1, 1⟩⟩) ∈
          Remote.deliveries (Remote.history (net "throttle" {} wallClock) (outage 0)) := by
        decide +kernel
      exact ⟨0, by simp, ⟨_, _, hend, rfl⟩, 0, ⟨by decide, by decide +kernel⟩,
        .inl ⟨_, _, hdelivered, rfl, rfl, rfl⟩⟩
    · obtain rfl := Finset.mem_singleton.mp hid
      have hend : Remote.ended (net "throttle" {} wallClock) (outage 0) 1 =
          some (0, .check "k" ⟨1, 1⟩, .ok (.decided ⟨true, 0, 1, 1, 1⟩)) := by
        decide +kernel
      have hnone : ∀ x ∈ Remote.deliveries (Remote.history (net "throttle" {} wallClock) (outage 0)), x.1 ≠ 1 := by
        decide +kernel
      have hin : LetIn "throttle" {} wallClock (outage 0) "k" 0 1 := ⟨_, _, hend, rfl⟩
      refine ⟨0, by simp, hin, ?_⟩
      rcases granted hin with ⟨a, y, rate, hy, -⟩ | ⟨-, a, r, hr, hgrant⟩
      · exact absurd rfl (hnone _ hy)
      · have hmem : r.ev ∈ outage 0 := by
          have hev := List.mem_map_of_mem (f := Mealy.Step.ev) hr
          rwa [Mealy.log_map_ev] at hev
        have htime : ∀ e ∈ outage 0, Within ⟨1, 1⟩ 500000 e.time := by
          unfold Within
          decide +kernel
        obtain ⟨rate, d, ho, hallowed, rfl⟩ := hgrant
        exact ⟨r.ev.time, htime _ hmem, .inr ⟨r, hr, rate, d, ho, hallowed, rfl⟩⟩
  exact ⟨hletin, open_multiplies_limit (steady_wallClock (by norm_num)) (limited_outage 0) {0} {0, 1} hletin⟩

end ThrottleFleet

end ResilienceKit

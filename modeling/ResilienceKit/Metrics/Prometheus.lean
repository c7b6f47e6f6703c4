import Mathlib
import ResilienceKit.Exceptions
import ResilienceKit.Metrics.Cardinality

/-!
# Metrics.Prometheus — `PrometheusMetricsSink`

Each method has a table of its own, keyed by the name of the metric, but all instruments register with one registry
of `prometheus_client` (a parameter), which refuses an instrument that exports a series name it knows.
`never_raises_iff` says for which calls no method raises: if no two of the instruments they ask for export a common
series name, and the registry knows none of them before.
-/

namespace ResilienceKit.Metrics.Prometheus

/-- `[a-zA-Z_:][a-zA-Z0-9_:]*` -/
def validMetricName (name : String) : Bool :=
  match name.toList with
  | [] => false
  | c :: cs => (c.isAlpha || c = '_' || c = ':') && cs.all fun c => c.isAlphanum || c = '_' || c = ':'

/-- What the sink uses of the package: which names it takes, and the series that an instrument exports. -/
structure PrometheusClient where
  acceptsName : String → Bool
  acceptsLabel : Kind → String → Bool
  series : Kind → String → List String
  accepts_valid : ∀ name, validMetricName name = true → acceptsName name = true

def isNameChar (c : Char) : Bool := c.isAlphanum || c = '_'

/-- `_sanitize` -/
def sanitize (name : String) : String :=
  "resilience_kit_" ++ String.ofList (name.toList.map fun c => if isNameChar c then c else '_')

/-- The name under which the instrument of a metric registers. -/
def instrumentName : Kind → String → String
  | .incr, name => sanitize name
  | .timing, name => sanitize name ++ "_milliseconds"
  | .gauge, name => sanitize name

/-- `tables` are `_counters`, `_histograms` and `_gauges`: an instrument and its label names.  `registered` are the
series names that the registry knows. -/
structure Sink where
  tables : Kind → String → Option (ℕ × List String) := fun _ _ => none
  registered : List String
  created : ℕ := 0

/-- `tuple(sorted(tags)) if tags else ()` -/
def labelNames : Option Tags → List String
  | none => []
  | some tags => tags.keys.insertionSort (· ≤ ·)

/-- `_label_values` -/
def labelValues (labelnames : List String) (tags : Option Tags) : List String :=
  labelnames.map fun name => ((tags.getD {}).get name).getD ""

/-- What an instrument is told. -/
structure Recorded (V : Type) where
  instrument : ℕ
  labels : List String
  value : V
  deriving DecidableEq, Repr

variable (P : PrometheusClient)

/-- The series that the instrument of a metric exports. -/
def seriesOf (kind : Kind) (name : String) : List String := P.series kind (instrumentName kind name)

/-- The package makes an instrument, and the registry takes it. -/
def Makes (s : Sink) (kind : Kind) (name : String) (labelnames : List String) : Prop :=
  (∀ l ∈ labelnames, P.acceptsLabel kind l = true) ∧ P.acceptsName (instrumentName kind name) = true ∧
    ∀ x ∈ seriesOf P kind name, x ∉ s.registered

instance (s : Sink) (kind : Kind) (name : String) (labelnames : List String) :
    Decidable (Makes P s kind name labelnames) :=
  inferInstanceAs (Decidable (_ ∧ _ ∧ _))

/-- A new instrument enters its table and the registry. -/
def Sink.add (s : Sink) (kind : Kind) (name : String) (labelnames : List String) : Sink where
  tables := fun kind' name' =>
    if kind' = kind ∧ name' = name then some (s.created, labelnames) else s.tables kind' name'
  registered := s.registered ++ seriesOf P kind name
  created := s.created + 1

/-- `_counter`, `_histogram` and `_gauge`. -/
def instrument (s : Sink) (kind : Kind) (name : String) (tags : Option Tags) :
    Sink × Except PyExc (ℕ × List String) :=
  match s.tables kind name with
  | some existing => (s, .ok existing)
  | none =>
    if Makes P s kind name (labelNames tags) then
      (s.add P kind name (labelNames tags), .ok (s.created, labelNames tags))
    else (s, .error ⟨.valueError, 0⟩)

variable {V : Type}

section Methods

variable [Zero V] [LT V] [DecidableLT V]

/-- Counters only go up. -/
def record (e : MetricEvent V) (instrument : ℕ × List String) : Except PyExc (Recorded V) :=
  if e.kind = .incr ∧ e.value < 0 then .error ⟨.valueError, 0⟩
  else .ok ⟨instrument.1, labelValues instrument.2 e.tags, e.value⟩

/-- `incr`, `timing` and `gauge`. -/
def step (s : Sink) (e : MetricEvent V) : Sink × Except PyExc (Recorded V) :=
  let (s, found) := instrument P s e.kind e.name e.tags
  (s, found.bind (record e))

/-- A sink on a registry that knows some series names. -/
def sink (initial : List String) : Mealy Sink (MetricEvent V) (Except PyExc (Recorded V)) where
  init := { registered := initial }
  step := step P

/-- A call that the package has no other reason to refuse: counters go up, and the label names are valid. -/
def Permitted (e : MetricEvent V) : Prop :=
  (e.kind = .incr → ¬ e.value < 0) ∧ ∀ l ∈ labelNames e.tags, P.acceptsLabel e.kind l = true

/-- Two calls of one method with one name. -/
def Same (e e' : MetricEvent V) : Prop := e.kind = e'.kind ∧ e.name = e'.name

/-- The calls of a new sink, with what becomes of them. -/
def history (initial : List String) (calls : List (MetricEvent V)) :
    List (Mealy.Step Sink (MetricEvent V) (Except PyExc (Recorded V))) :=
  (sink P initial).log { registered := initial } calls

/-- No call raises, and an instrument records the events of one name and one method. -/
def Undisturbed (initial : List String) (calls : List (MetricEvent V)) : Prop :=
  (∀ r ∈ history P initial calls, ∃ x, r.out = .ok x) ∧
    ∀ r ∈ history P initial calls, ∀ r' ∈ history P initial calls, ∀ x x', r.out = .ok x → r'.out = .ok x' →
      x.instrument = x'.instrument → Same r.ev r'.ev

end Methods

/-- No two instruments of the calls export a common series name, and none one that the registry knows. -/
def Apart (initial : List String) (calls : List (MetricEvent V)) : Prop :=
  (∀ e ∈ calls, ∀ x ∈ seriesOf P e.kind e.name, x ∉ initial) ∧
    ∀ e ∈ calls, ∀ e' ∈ calls, ¬ Same e e' → ∀ x ∈ seriesOf P e.kind e.name, x ∉ seriesOf P e'.kind e'.name

/-! ### One call -/

section Calls

variable [Zero V] [LT V] [DecidableLT V] {P} {s s' : Sink} {e : MetricEvent V} {out : Except PyExc (Recorded V)}

/-- What a call does. -/
inductive Moved (P : PrometheusClient) (s : Sink) (e : MetricEvent V) : Except PyExc (Recorded V) → Sink → Prop
  | found {x : ℕ × List String} (hx : s.tables e.kind e.name = some x) : Moved P s e (record e x) s
  | added (hnone : s.tables e.kind e.name = none) (hmakes : Makes P s e.kind e.name (labelNames e.tags)) :
      Moved P s e (record e (s.created, labelNames e.tags)) (s.add P e.kind e.name (labelNames e.tags))
  | refused (hnone : s.tables e.kind e.name = none) (hno : ¬ Makes P s e.kind e.name (labelNames e.tags)) :
      Moved P s e (.error ⟨.valueError, 0⟩) s

/-- **Inversion.** -/
theorem moved (P : PrometheusClient) (s : Sink) (e : MetricEvent V) :
    Moved P s e (step P s e).2 (step P s e).1 := by
  unfold step instrument
  cases htable : s.tables e.kind e.name with
  | some x => exact .found htable
  | none =>
    by_cases hmakes : Makes P s e.kind e.name (labelNames e.tags)
    · simp only [if_pos hmakes]
      exact .added htable hmakes
    · simp only [if_neg hmakes]
      exact .refused htable hmakes

theorem record_eq_ok {i : ℕ × List String} {x : Recorded V} (h : record e i = .ok x) : x.instrument = i.1 := by
  unfold record at h
  split_ifs at h
  rw [← Except.ok.inj h]

theorem tables_add (s : Sink) (kind kind' : Kind) (name name' : String) (labelnames : List String) :
    (s.add P kind name labelnames).tables kind' name' =
      if kind' = kind ∧ name' = name then some (s.created, labelnames) else s.tables kind' name' := rfl

/-- Instruments stay in their tables. -/
theorem Moved.tables (hm : Moved P s e out s') {kind : Kind} {name : String} {x : ℕ × List String}
    (hx : s.tables kind name = some x) : s'.tables kind name = some x := by
  cases hm with
  | found => exact hx
  | refused => exact hx
  | added hnone hmakes =>
    rw [tables_add, if_neg]
    · exact hx
    · rintro ⟨rfl, rfl⟩
      rw [hnone] at hx
      cases hx

/-- What is recorded is recorded on the instrument of the name and the method. -/
theorem Moved.recorded {x : Recorded V} (hm : Moved P s e (.ok x) s') :
    ∃ i, s'.tables e.kind e.name = some i ∧ x.instrument = i.1 := by
  generalize hout : (.ok x : Except PyExc (Recorded V)) = out at hm
  cases hm with
  | found hx => exact ⟨_, hx, record_eq_ok hout.symm⟩
  | refused => cases hout
  | added hnone hmakes => exact ⟨_, by rw [tables_add, if_pos ⟨rfl, rfl⟩], record_eq_ok hout.symm⟩

end Calls

/-! ### The instruments of a sink -/

section Instruments

variable {P} {initial : List String} {calls : List (MetricEvent V)} {s : Sink} {e : MetricEvent V}

/-- The sink has an instrument for the metric. -/
def Sink.Holds (s : Sink) (kind : Kind) (name : String) : Prop := ∃ i, s.tables kind name = some i

theorem holds_add {kind kind' : Kind} {name name' : String} {labelnames : List String} :
    (s.add P kind name labelnames).Holds kind' name' ↔ (kind' = kind ∧ name' = name) ∨ s.Holds kind' name' := by
  unfold Sink.Holds
  rw [tables_add]
  split_ifs with h
  · exact iff_of_true ⟨_, rfl⟩ (.inl h)
  · rw [or_iff_right h]

/-- Instruments were asked for, are no two the same, and export what the registry knows besides its first names;
no series is exported twice. -/
structure Inv (P : PrometheusClient) (initial : List String) (calls : List (MetricEvent V)) (s : Sink) : Prop where
  asked : ∀ kind name, s.Holds kind name → ∃ e ∈ calls, e.kind = kind ∧ e.name = name
  fresh : ∀ kind name i, s.tables kind name = some i → i.1 < s.created
  injective : ∀ kind name i kind' name' i', s.tables kind name = some i → s.tables kind' name' = some i' →
    i.1 = i'.1 → kind = kind' ∧ name = name'
  registered : ∀ x, x ∈ s.registered ↔ x ∈ initial ∨ ∃ kind name, s.Holds kind name ∧ x ∈ seriesOf P kind name
  new : ∀ kind name, s.Holds kind name → ∀ x ∈ seriesOf P kind name, x ∉ initial
  apart : ∀ kind name kind' name', s.Holds kind name → s.Holds kind' name' → ¬ (kind = kind' ∧ name = name') →
    ∀ x ∈ seriesOf P kind name, x ∉ seriesOf P kind' name'

theorem Inv.init : Inv P initial ([] : List (MetricEvent V)) { registered := initial } where
  asked := fun _ _ ⟨_, h⟩ => nomatch h
  fresh := nofun
  injective := nofun
  registered x := by
    constructor
    · exact .inl
    · rintro (h | ⟨kind, name, ⟨i, hi⟩, -⟩)
      · exact h
      · cases hi
  new := fun _ _ ⟨_, h⟩ => nomatch h
  apart := fun _ _ _ _ ⟨_, h⟩ => nomatch h

theorem Inv.mono (hs : Inv P initial calls s) (e : MetricEvent V) : Inv P initial (calls ++ [e]) s :=
  { hs with asked := fun kind name h =>
      (hs.asked kind name h).imp fun _ h => ⟨List.mem_append_left _ h.1, h.2⟩ }

/-- A new instrument exports what the registry did not know. -/
theorem Inv.add (hs : Inv P initial calls s) (hmakes : Makes P s e.kind e.name (labelNames e.tags)) :
    Inv P initial (calls ++ [e]) (s.add P e.kind e.name (labelNames e.tags)) := by
  have hunknown := hmakes.2.2
  -- the number of the new instrument is not taken
  have htaken : ∀ kind name i, s.tables kind name = some i → i.1 ≠ s.created :=
    fun kind name i h => (hs.fresh kind name i h).ne
  constructor
  · intro kind name h
    rcases holds_add.mp h with ⟨rfl, rfl⟩ | h
    · exact ⟨e, List.mem_append_right _ List.mem_cons_self, rfl, rfl⟩
    · exact (hs.mono e).asked kind name h
  · intro kind name i h
    rw [tables_add] at h
    split_ifs at h with hkey
    · rw [← Option.some.inj h]
      exact Nat.lt_succ_self _
    · exact Nat.lt_succ_of_lt (hs.fresh kind name i h)
  · intro kind name i kind' name' i' h h' heq
    rw [tables_add] at h h'
    split_ifs at h h' with hkey hkey' hkey'
    · exact ⟨hkey.1.trans hkey'.1.symm, hkey.2.trans hkey'.2.symm⟩
    · rw [← Option.some.inj h] at heq
      exact absurd heq.symm (htaken kind' name' i' h')
    · rw [← Option.some.inj h'] at heq
      exact absurd heq (htaken kind name i h)
    · exact hs.injective kind name i kind' name' i' h h' heq
  · intro x
    change x ∈ s.registered ++ seriesOf P e.kind e.name ↔ _
    rw [List.mem_append, hs.registered]
    constructor
    · rintro ((h | ⟨kind, name, h, hx⟩) | h)
      · exact .inl h
      · exact .inr ⟨kind, name, holds_add.mpr (.inr h), hx⟩
      · exact .inr ⟨e.kind, e.name, holds_add.mpr (.inl ⟨rfl, rfl⟩), h⟩
    · rintro (h | ⟨kind, name, h, hx⟩)
      · exact .inl (.inl h)
      · rcases holds_add.mp h with ⟨rfl, rfl⟩ | h
        · exact .inr hx
        · exact .inl (.inr ⟨kind, name, h, hx⟩)
  · intro kind name h x hx
    rcases holds_add.mp h with ⟨rfl, rfl⟩ | h
    · exact fun hinit => hunknown x hx ((hs.registered x).mpr (.inl hinit))
    · exact hs.new kind name h x hx
  · intro kind name kind' name' h h' hne x hx hx'
    rcases holds_add.mp h with ⟨rfl, rfl⟩ | h <;> rcases holds_add.mp h' with ⟨rfl, rfl⟩ | h'
    · exact hne ⟨rfl, rfl⟩
    · exact hunknown x hx ((hs.registered x).mpr (.inr ⟨kind', name', h', hx'⟩))
    · exact hunknown x hx' ((hs.registered x).mpr (.inr ⟨kind, name, h, hx⟩))
    · exact hs.apart kind name kind' name' h h' hne x hx hx'

end Instruments

/-! ### Names -/

theorem validMetricName_of_chars {name : String} (cs : List Char) (hname : name.toList = 'r' :: cs)
    (hcs : ∀ c ∈ cs, isNameChar c = true) : validMetricName name = true := by
  unfold validMetricName
  rw [hname]
  refine (Bool.and_eq_true _ _).mpr ⟨by decide, List.all_eq_true.mpr fun c hc => ?_⟩
  exact (Bool.or_eq_true _ _).mpr (.inl (hcs c hc))

theorem toList_sanitize (name : String) :
    ∃ cs, (sanitize name).toList = 'r' :: cs ∧ ∀ c ∈ cs, isNameChar c = true := by
  refine ⟨"esilience_kit_".toList ++ name.toList.map fun c => if isNameChar c then c else '_', ?_, ?_⟩
  · unfold sanitize
    simp only [String.toList_append, String.toList_ofList]
    rfl
  · intro c hc
    rcases List.mem_append.mp hc with hc | hc
    · have hall : "esilience_kit_".toList.all isNameChar = true := by decide
      exact List.all_eq_true.mp hall c hc
    · obtain ⟨d, -, rfl⟩ := List.mem_map.mp hc
      split_ifs with hd
      · exact hd
      · rfl

/-- The sink registers valid names only. -/
theorem valid_instrumentName (kind : Kind) (name : String) : validMetricName (instrumentName kind name) = true := by
  obtain ⟨cs, hname, hcs⟩ := toList_sanitize name
  cases kind with
  | incr => exact validMetricName_of_chars cs hname hcs
  | gauge => exact validMetricName_of_chars cs hname hcs
  | timing =>
    refine validMetricName_of_chars (cs ++ "_milliseconds".toList) ?_ fun c hc => ?_
    · rw [instrumentName, String.toList_append, hname, List.cons_append]
    · rcases List.mem_append.mp hc with hc | hc
      · exact hcs c hc
      · have hall : "_milliseconds".toList.all isNameChar = true := by decide
        exact List.all_eq_true.mp hall c hc

/-! ### Runs -/

section Runs

variable [Zero V] [LT V] [DecidableLT V] {P} {initial : List String} {calls : List (MetricEvent V)} {s s' : Sink}
  {e : MetricEvent V} {out : Except PyExc (Recorded V)}

theorem Moved.inv (hm : Moved P s e out s') (hs : Inv P initial calls s) : Inv P initial (calls ++ [e]) s' := by
  cases hm with
  | found => exact hs.mono e
  | refused => exact hs.mono e
  | added _ hmakes => exact hs.add hmakes

/-- The state after the calls. -/
def after (P : PrometheusClient) (initial : List String) (calls : List (MetricEvent V)) : Sink :=
  (sink P initial).exec { registered := initial } calls

theorem inv_after (P : PrometheusClient) (initial : List String) (calls : List (MetricEvent V)) :
    Inv P initial calls (after P initial calls) := by
  induction calls using List.reverseRecOn with
  | nil => exact .init
  | append_singleton calls e ih =>
    rw [after, Mealy.exec_concat]
    exact (moved P (after P initial calls) e).inv ih

/-- Instruments stay in their tables. -/
theorem tables_exec {kind : Kind} {name : String} {i : ℕ × List String} (hi : s.tables kind name = some i) :
    ((sink P initial).exec s calls).tables kind name = some i := by
  induction calls using List.reverseRecOn with
  | nil => exact hi
  | append_singleton calls e ih =>
    rw [Mealy.exec_concat]
    exact (moved P ((sink P initial).exec s calls) e).tables ih

/-- What was recorded was recorded on an instrument that the sink still has. -/
theorem recorded_after {r : Mealy.Step Sink (MetricEvent V) (Except PyExc (Recorded V))}
    (hr : r ∈ history P initial calls) {x : Recorded V} (hx : r.out = .ok x) :
    ∃ i, (after P initial calls).tables r.ev.kind r.ev.name = some i ∧ x.instrument = i.1 := by
  obtain ⟨p, e, q, rfl, rfl⟩ := Mealy.mem_log_iff.mp hr
  have hm := moved P (after P initial p) e
  rw [show (step P (after P initial p) e).2 = .ok x from hx] at hm
  obtain ⟨i, hi, hinstrument⟩ := hm.recorded
  refine ⟨i, ?_, hinstrument⟩
  rw [after, Mealy.exec_append, Mealy.exec_cons]
  exact tables_exec hi

/-- A permitted call is recorded if its instrument is there or can be made. -/
theorem Moved.ok (hm : Moved P s e out s') (he : Permitted P e)
    (hmakes : s.tables e.kind e.name = none → Makes P s e.kind e.name (labelNames e.tags)) : ∃ x, out = .ok x := by
  have hrecord : ∀ i : ℕ × List String, ∃ x, record e i = .ok x := fun i =>
    ⟨_, if_neg fun h => he.1 h.1 h.2⟩
  cases hm with
  | found => exact hrecord _
  | added => exact hrecord _
  | refused hnone hno => exact absurd (hmakes hnone) hno

end Runs

/-- **The sink is undisturbed exactly if its instruments are apart.** -/
theorem never_raises_iff [Zero V] [LT V] [DecidableLT V] (initial : List String) {calls : List (MetricEvent V)}
    (hcalls : ∀ e ∈ calls, Permitted P e) : Undisturbed P initial calls ↔ Apart P initial calls := by
  have hinv := inv_after P initial calls
  constructor
  · rintro ⟨hok, -⟩
    -- every call has left an instrument
    have hholds : ∀ e ∈ calls, (after P initial calls).Holds e.kind e.name := by
      intro e he
      rw [← Mealy.log_map_ev (sink P initial) { registered := initial } calls] at he
      obtain ⟨r, hr, rfl⟩ := List.mem_map.mp he
      obtain ⟨x, hx⟩ := hok r hr
      obtain ⟨i, hi, -⟩ := recorded_after hr hx
      exact ⟨i, hi⟩
    exact ⟨fun e he => hinv.new e.kind e.name (hholds e he),
      fun e he e' he' => hinv.apart e.kind e.name e'.kind e'.name (hholds e he) (hholds e' he')⟩
  · rintro ⟨hnew, hapart⟩
    refine ⟨fun r hr => ?_, fun r hr r' hr' x x' hx hx' heq => ?_⟩
    · obtain ⟨p, e, q, rfl, rfl⟩ := Mealy.mem_log_iff.mp hr
      have he : e ∈ p ++ e :: q := List.mem_append_right _ List.mem_cons_self
      refine (moved P (after P initial p) e).ok (hcalls e he) fun hnone => ?_
      refine ⟨(hcalls e he).2, P.accepts_valid _ (valid_instrumentName _ _), fun x hx hregistered => ?_⟩
      have hbefore := inv_after P initial p
      rcases (hbefore.registered x).mp hregistered with h | ⟨kind, name, hheld, hx'⟩
      · exact hnew e he x hx h
      · obtain ⟨e', he', rfl, rfl⟩ := hbefore.asked kind name hheld
        refine hapart e he e' (List.mem_append_left _ he') ?_ x hx hx'
        rintro ⟨hkind, hname⟩
        obtain ⟨i, hi⟩ := hheld
        rw [← hkind, ← hname, hnone] at hi
        cases hi
    · obtain ⟨i, hi, hinstrument⟩ := recorded_after hr hx
      obtain ⟨i', hi', hinstrument'⟩ := recorded_after hr' hx'
      exact hinv.injective _ _ i _ _ i' hi hi' (by rw [← hinstrument, heq, hinstrument'])

/-! ### `prometheus_client` -/

/-- `[a-zA-Z_][a-zA-Z0-9_]*`, but no reserved name, as release 0.19 has it; later ones take more labels. -/
def validLabelName (kind : Kind) (label : String) : Bool :=
  match label.toList with
  | [] => false
  | c :: cs => (c.isAlpha || c = '_') && cs.all isNameChar && !("__".toList.isPrefixOf (c :: cs)) &&
      !(kind = .timing && label = "le")

/-- A suffix `_total` is not part of a counter's name. -/
def withoutTotal (name : String) : String :=
  if "_total".toList.isSuffixOf name.toList then String.ofList (name.toList.take (name.toList.length - 6)) else name

/-- The names as the package checks them, and the series as its registry counts them. -/
def prometheusClient : PrometheusClient where
  acceptsName := validMetricName
  acceptsLabel := validLabelName
  series
    | .incr, name => ["", "_total", "_created"].map (withoutTotal name ++ ·)
    | .timing, name => ["", "_bucket", "_sum", "_count", "_created"].map (name ++ ·)
    | .gauge, name => [name]
  accepts_valid _ h := h

/-- `incr("breaker.open", tags={"service": "a"})` and `timing("http.latency", 42)` -/
def apartCalls : List (MetricEvent ℕ) :=
  [⟨.incr, "breaker.open", 1, some { items := [("service", "a")], nodup := by simp }⟩,
    ⟨.timing, "http.latency", 42, none⟩, ⟨.incr, "breaker.open", 1, none⟩]

theorem apart_apartCalls : Apart prometheusClient [] apartCalls := by
  have hseries : ∀ e ∈ apartCalls, ∀ e' ∈ apartCalls, e.kind ≠ e'.kind → ∀ x ∈ seriesOf prometheusClient e.kind e.name,
      x ∉ seriesOf prometheusClient e'.kind e'.name := by decide +kernel
  refine ⟨fun _ _ _ _ => List.not_mem_nil, fun e he e' he' hsame => hseries e he e' he' fun hkind => hsame ?_⟩
  simp only [apartCalls, List.mem_cons, List.not_mem_nil, or_false] at he he'
  rcases he with rfl | rfl | rfl <;> rcases he' with rfl | rfl | rfl <;> first | exact ⟨rfl, rfl⟩ | cases hkind

theorem never_raises_iff_apart : Undisturbed prometheusClient [] apartCalls := by
  refine (never_raises_iff prometheusClient [] fun e he => ?_).mpr apart_apartCalls
  simp only [apartCalls, List.mem_cons, List.not_mem_nil, or_false] at he
  rcases he with rfl | rfl | rfl <;> exact ⟨by decide, by decide +kernel⟩

/-- Two names that become one, and one name that is counted and gauged. -/
def foldedNames : List (MetricEvent ℕ) := [⟨.incr, "a.b", 1, none⟩, ⟨.incr, "a_b", 1, none⟩]

def twoMethods : List (MetricEvent ℕ) := [⟨.incr, "jobs", 1, none⟩, ⟨.gauge, "jobs", 1, none⟩]

/-- A call that raises disturbs the sink. -/
theorem not_undisturbed {initial : List String} {calls : List (MetricEvent ℕ)} {exc : PyExc}
    (before : List (Except PyExc (Recorded ℕ)))
    (h : (history P initial calls).map Mealy.Step.out = before ++ [.error exc]) : ¬ Undisturbed P initial calls := by
  rintro ⟨hok, -⟩
  have hmem : .error exc ∈ (history P initial calls).map Mealy.Step.out := by
    rw [h]
    exact List.mem_append_right _ List.mem_cons_self
  obtain ⟨r, hr, hout⟩ := List.mem_map.mp hmem
  obtain ⟨x, hx⟩ := hok r hr
  cases hx.symm.trans hout

/-- The second call raises a `ValueError`. -/
theorem second_instrument_refused :
    (∀ e ∈ foldedNames ++ twoMethods, Permitted prometheusClient e) ∧
    (history prometheusClient [] foldedNames).map Mealy.Step.out = [.ok ⟨0, [], 1⟩, .error ⟨.valueError, 0⟩] ∧
    (history prometheusClient [] twoMethods).map Mealy.Step.out = [.ok ⟨0, [], 1⟩, .error ⟨.valueError, 0⟩] ∧
    ¬ Undisturbed prometheusClient [] foldedNames ∧ ¬ Undisturbed prometheusClient [] twoMethods := by
  have hfolded : (history prometheusClient [] foldedNames).map Mealy.Step.out =
      [.ok ⟨0, [], 1⟩, .error ⟨.valueError, 0⟩] := by decide +kernel
  have hmethods : (history prometheusClient [] twoMethods).map Mealy.Step.out =
      [.ok ⟨0, [], 1⟩, .error ⟨.valueError, 0⟩] := by decide +kernel
  refine ⟨fun e he => ?_, hfolded, hmethods, not_undisturbed prometheusClient [.ok ⟨0, [], 1⟩] hfolded,
    not_undisturbed prometheusClient [.ok ⟨0, [], 1⟩] hmethods⟩
  simp only [foldedNames, twoMethods, List.cons_append, List.nil_append, List.mem_cons, List.not_mem_nil,
    or_false] at he
  rcases he with rfl | rfl | rfl | rfl <;> exact ⟨by decide, by decide⟩

end ResilienceKit.Metrics.Prometheus

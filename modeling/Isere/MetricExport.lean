-- One pass of `encode_metrics` exports every instrument that was created, once,
-- with its own texts and its own number. Of an arbitrary history, with a nanopb
-- whose calls may fail.
import Isere.MetricStrings
import Isere.Runs
import Mathlib.Algebra.Order.Ring.Int

open cstring emitter push_list runs

namespace isere.otel

/-! ## The operations on the instruments -/

/-- A call of one of the four functions. An instrument is named by its number among those of its
kind, in the order in which they were created. -/
inductive MetricOp
  | createCounter (args : TextArgs) (aggregation : AggregationTemporality) (old : Texts)
  | createGauge (args : TextArgs) (old : Texts)
  | counterAdd (counter : Nat) (increment : Int64)
  | gaugeSet (gauge : Nat) (value : Int64)

def Metrics.apply (m : Metrics) : MetricOp → Metrics
  | .createCounter args aggregation old => isereOtelCreateCounter m args aggregation old
  | .createGauge args old => isereOtelCreateGauge m args old
  | .counterAdd counter increment => isereOtelCounterAdd m counter increment
  | .gaugeSet gauge value => isereOtelGaugeSet m gauge value

/-- Each text leaves room for its NUL. -/
def TextArgs.Short (args : TextArgs) : Prop :=
  strlen args.name < ISERE_OTEL_METRIC_MAX_NAME_LEN ∧
    strlen args.description < ISERE_OTEL_METRIC_MAX_DESCRIPTION_LEN ∧
    strlen args.unit < ISERE_OTEL_METRIC_MAX_UNIT_LEN

instance (args : TextArgs) : Decidable args.Short := inferInstanceAs (Decidable (_ ∧ _ ∧ _))

def MetricOp.TextsShort : MetricOp → Prop
  | .createCounter args _ _ => args.Short
  | .createGauge args _ => args.Short
  | _ => True

instance : ∀ op : MetricOp, Decidable op.TextsShort
  | .createCounter args _ _ => inferInstanceAs (Decidable args.Short)
  | .createGauge args _ => inferInstanceAs (Decidable args.Short)
  | .counterAdd _ _ | .gaugeSet _ _ => inferInstanceAs (Decidable True)

/-! ## What there is to export, by the history alone -/

/-- The increments of a counter. -/
def increments (counter : Nat) : List MetricOp → List Int64
  | [] => []
  | .counterAdd c increment :: ops =>
    if c = counter then increment :: increments counter ops else increments counter ops
  | _ :: ops => increments counter ops

/-- The values that a gauge is set to. -/
def values (gauge : Nat) : List MetricOp → List Int64
  | [] => []
  | .gaugeSet g value :: ops =>
    if g = gauge then value :: values gauge ops else values gauge ops
  | _ :: ops => values gauge ops

/-- An instrument that was created, and what was done with it since. -/
inductive Created
  | counter (args : TextArgs) (aggregation : AggregationTemporality) (increments : List Int64)
  | gauge (args : TextArgs) (values : List Int64)

/-- The counters that the history creates, the oldest first. It has created `n` before. -/
def createdCounters : Nat → List MetricOp → List Created
  | _, [] => []
  | n, .createCounter args aggregation _ :: ops =>
    .counter args aggregation (increments n ops) :: createdCounters (n + 1) ops
  | n, _ :: ops => createdCounters n ops

def createdGauges : Nat → List MetricOp → List Created
  | _, [] => []
  | n, .createGauge args _ :: ops => .gauge args (values n ops) :: createdGauges (n + 1) ops
  | n, _ :: ops => createdGauges n ops

/-- The instruments in the order of the export. -/
def exportOrder (ops : List MetricOp) : List Created :=
  (createdCounters 0 ops).reverse ++ (createdGauges 0 ops).reverse

def Created.args : Created → TextArgs
  | .counter args _ _ => args
  | .gauge args _ => args

/-- The sum of the increments, as an `int64_t` that wraps, or the last value. -/
def Created.number : Created → Int64
  | .counter _ _ increments => .ofInt (increments.map Int64.toInt).sum
  | .gauge _ values => values.getLast?.getD 0

/-! ## The metric of an instrument -/

def singularTokens (f : Field) (v : Value) : List Token := if v.isDefault then [] else [.value f v]

/-- A number, with the time when the task started and the time of the export. -/
def numberDataPoint (startTimeUnix now : UInt64) (v : Int64) : List Token :=
  [.tag .dataPoints, .opened] ++
    singularTokens .startTimeUnixNano (.fixed64 (nanos startTimeUnix)) ++
    singularTokens .timeUnixNano (.fixed64 (nanos now)) ++ [.value .asInt (.int64 v), .closed]

def textTokens (args : TextArgs) : List Token :=
  [.tag .name, .string (cstr args.name), .tag .description, .string (cstr args.description),
   .tag .unit, .string (cstr args.unit)]

def dataTokens (startTimeUnix now : UInt64) (c : Created) : List Token :=
  match c with
  | .counter _ aggregation _ =>
    [.tag .sum, .opened] ++ numberDataPoint startTimeUnix now c.number ++
      [.value .aggregationTemporality aggregation.toValue, .value .isMonotonic (.bool true),
        .closed]
  | .gauge _ _ => [.tag .gauge, .opened] ++ numberDataPoint startTimeUnix now c.number ++ [.closed]

/-- The metric of an instrument, at some time. -/
def IsMetric (field : Field) (startTimeUnix : UInt64) (c : Created) (ts : List Token) : Prop :=
  ∃ now, ts = [.tag field, .opened] ++ textTokens c.args ++ dataTokens startTimeUnix now c ++
    [.closed]

/-! ## The instruments that a history leaves -/

def MetricOp.counterChange : MetricOp → Change OtelMetricsCounter
  | .createCounter args aggregation old => .push { texts := old.copy args, count := 0, aggregation }
  | .counterAdd counter increment =>
    .modify counter (fun c => { c with count := c.count + increment })
  | _ => .none

def MetricOp.gaugeChange : MetricOp → Change OtelMetricsGauge
  | .createGauge args old => .push { texts := old.copy args, value := 0 }
  | .gaugeSet gauge value => .modify gauge (fun g => { g with value })
  | _ => .none

theorem run_counters (m : Metrics) (ops : List MetricOp) : (run Metrics.apply m ops).counters =
    (ops.map MetricOp.counterChange).foldl PushList.change m.counters := by
  induction ops generalizing m with
  | nil => rfl
  | cons op ops ih =>
    rw [run_cons, ih, List.map_cons, List.foldl_cons]
    cases op <;> rfl

theorem run_gauges (m : Metrics) (ops : List MetricOp) : (run Metrics.apply m ops).gauges =
    (ops.map MetricOp.gaugeChange).foldl PushList.change m.gauges := by
  induction ops generalizing m with
  | nil => rfl
  | cons op ops ih =>
    rw [run_cons, ih, List.map_cons, List.foldl_cons]
    cases op <;> rfl

/-- The counter in memory is what the history says of it. -/
def CounterOf (c : OtelMetricsCounter) (r : Created) : Prop :=
  ∃ args, ∃ old : Texts, ∃ increments, r = .counter args c.aggregation increments ∧
    c.texts = old.copy args ∧ c.count = r.number

def GaugeOf (g : OtelMetricsGauge) (r : Created) : Prop :=
  ∃ args, ∃ old : Texts, ∃ values, r = .gauge args values ∧ g.texts = old.copy args ∧
    g.value = r.number

theorem changed_counter (i : Nat) (ops : List MetricOp) (c : OtelMetricsCounter) :
    changed i (ops.map MetricOp.counterChange) c =
      { c with count := c.count + .ofInt ((increments i ops).map Int64.toInt).sum } := by
  induction ops generalizing c with
  | nil => simp [changed, increments]
  | cons op ops ih =>
    cases op with
    | createCounter => exact ih c
    | createGauge => exact ih c
    | gaugeSet => exact ih c
    | counterAdd j increment =>
      simp only [List.map_cons, MetricOp.counterChange, changed, ih, increments]
      by_cases hji : j = i
      · simp [hji, Int64.ofInt_add, Int64.add_assoc]
      · simp [hji]

theorem changed_gauge (i : Nat) (ops : List MetricOp) (g : OtelMetricsGauge) :
    changed i (ops.map MetricOp.gaugeChange) g =
      { g with value := (values i ops).getLast?.getD g.value } := by
  induction ops generalizing g with
  | nil => simp [changed, values]
  | cons op ops ih =>
    cases op with
    | createCounter => exact ih g
    | createGauge => exact ih g
    | counterAdd => exact ih g
    | gaugeSet j value =>
      simp only [List.map_cons, MetricOp.gaugeChange, changed, ih, values]
      by_cases hji : j = i
      · simp [hji, List.getLast?_cons]
      · simp [hji]

theorem counters_created (n : Nat) (ops : List MetricOp) :
    List.Forall₂ CounterOf (pushed n (ops.map MetricOp.counterChange)) (createdCounters n ops) := by
  induction ops generalizing n with
  | nil => exact .nil
  | cons op ops ih =>
    cases op with
    | createGauge => exact ih n
    | counterAdd => exact ih n
    | gaugeSet => exact ih n
    | createCounter args aggregation old =>
      simp only [List.map_cons, MetricOp.counterChange, pushed, createdCounters, changed_counter]
      exact .cons ⟨args, old, increments n ops, rfl, rfl, by simp [Created.number]⟩ (ih (n + 1))

theorem gauges_created (n : Nat) (ops : List MetricOp) :
    List.Forall₂ GaugeOf (pushed n (ops.map MetricOp.gaugeChange)) (createdGauges n ops) := by
  induction ops generalizing n with
  | nil => exact .nil
  | cons op ops ih =>
    cases op with
    | createCounter => exact ih n
    | counterAdd => exact ih n
    | gaugeSet => exact ih n
    | createGauge args old =>
      simp only [List.map_cons, MetricOp.gaugeChange, pushed, createdGauges, changed_gauge]
      exact .cons ⟨args, old, values n ops, rfl, rfl, rfl⟩ (ih (n + 1))

/-! ## What the callbacks emit -/

section Emit

variable {σ : Type} (pb : Nanopb σ) (env : Surroundings σ)

theorem encodeString_emits (arg : Bytes) (field : Field) :
    Emits pb.toObserver (encodeString pb.toNanopbCalls arg field)
      (fun ts => ts = [.tag field, .string (cstr arg)]) := by
  refine ((pb.tag_emits field).andThen (pb.string_emits (cstr arg))).mono ?_
  rintro ts ⟨_, _, rfl, rfl, rfl⟩
  simp

theorem encodeMessage_emits {fields : List (MessageField σ)} {Ps : List (List Token → Prop)}
    (h : List.Forall₂ (FieldEmits pb.toObserver) fields Ps) (field : Field) :
    Emits pb.toObserver (encodeMessage pb.toNanopbCalls fields field)
      (fun ts => ∃ body, Cats Ps body ∧ ts = .tag field :: .opened :: body ++ [.closed]) := by
  refine ((pb.tag_emits field).andThen (pb.submessage_emits fields Ps h)).mono ?_
  rintro ts ⟨_, _, rfl, ⟨body, hbody, rfl⟩, rfl⟩
  exact ⟨body, hbody, by simp⟩

theorem singular_emits (f : Field) (v : Value) :
    FieldEmits pb.toObserver (.singular f v) (fun ts => ts = singularTokens f v) := rfl

theorem oneof_emits (f : Field) (v : Value) :
    FieldEmits pb.toObserver (.oneof f v) (fun ts => ts = [.value f v]) := rfl

/-- The number goes out with the time that the clock has. -/
theorem encodeNumberDataPoint_emits (v : Int64) :
    FieldEmits pb.toObserver
      (.callback .dataPoints (encodeNumberDataPoint pb.toNanopbCalls env v))
      (fun ts => ∃ now, ts = numberDataPoint env.startTimeUnix now v) := by
  have hpoint : ∀ now, Emits pb.toObserver
      (encodeMessage pb.toNanopbCalls (dataPoint env.startTimeUnix now v) .dataPoints)
      (fun ts => ts = numberDataPoint env.startTimeUnix now v) := by
    intro now
    have hfields := List.Forall₂.cons
      (singular_emits pb .startTimeUnixNano (.fixed64 (nanos env.startTimeUnix)))
      (.cons (singular_emits pb .timeUnixNano (.fixed64 (nanos now)))
        (.cons (oneof_emits pb .asInt (.int64 v)) .nil))
    refine (encodeMessage_emits pb hfields .dataPoints).mono ?_
    rintro ts ⟨body, hbody, rfl⟩
    simp only [cats_cons] at hbody
    obtain ⟨_, _, rfl, ⟨_, _, rfl, ⟨_, _, rfl, hnil, rfl⟩, rfl⟩, rfl⟩ := hbody
    obtain rfl := cats_nil.mp hnil
    simp [numberDataPoint, singularTokens]
  exact Emits.read env.isereRtcGetUnixTimestamp hpoint

/-- Texts that are short go out as they were given. -/
theorem textFields_emit {args : TextArgs} (hshort : args.Short) (old : Texts) (number : Int64)
    (behind : Bytes) : List.Forall₂ (FieldEmits pb.toObserver)
      (textFields pb.toNanopbCalls (old.copy args) number behind)
      [fun ts => ts = [.tag .name, .string (cstr args.name)],
       fun ts => ts = [.tag .description, .string (cstr args.description)],
       fun ts => ts = [.tag .unit, .string (cstr args.unit)]] := by
  obtain ⟨hname, hdescription, hunit⟩ := hshort
  have hname' : cstr (fieldMemory (old.copy args) number behind 0) = cstr args.name := by
    rw [name_memory, cstr_copied_short hname]
  have hdescription' : cstr (fieldMemory (old.copy args) number behind descriptionOff) =
      cstr args.description := by
    rw [description_memory, cstr_copied_short hdescription]
  have hunit' : cstr (fieldMemory (old.copy args) number behind unitOff) = cstr args.unit := by
    rw [unit_memory, cstr_copied_short hunit]
  rw [← hname', ← hdescription', ← hunit']
  exact .cons (encodeString_emits pb _ _) (.cons (encodeString_emits pb _ _)
    (.cons (encodeString_emits pb _ _) .nil))

/-- Four callbacks in a message: those of the texts, and that of the data. -/
theorem metric_emits {args : TextArgs} (hshort : args.Short) (old : Texts) (number : Int64)
    (behind : Bytes) {f : Field} {encode : Field → Writer σ} {P : List Token → Prop}
    (hdata : Emits pb.toObserver (encode f) P) (field : Field) :
    Emits pb.toObserver
      (encodeMessage pb.toNanopbCalls
        (textFields pb.toNanopbCalls (old.copy args) number behind ++ [.callback f encode]) field)
      (fun ts => ∃ body, P body ∧
        ts = [.tag field, .opened] ++ textTokens args ++ body ++ [.closed]) := by
  have hcallback : FieldEmits pb.toObserver (.callback f encode) P := hdata
  have hfields := List.rel_append (textFields_emit pb hshort old number behind)
    (.cons hcallback .nil)
  refine (encodeMessage_emits pb hfields field).mono ?_
  rintro ts ⟨body, hbody, rfl⟩
  simp only [List.cons_append, List.nil_append, cats_cons] at hbody
  obtain ⟨_, _, rfl, ⟨_, _, rfl, ⟨_, _, rfl, ⟨b, _, hb, hnil, rfl⟩, rfl⟩, rfl⟩, rfl⟩ := hbody
  obtain rfl := cats_nil.mp hnil
  exact ⟨b, hb, by simp [textTokens]⟩

theorem encodeCounter_emits {c : OtelMetricsCounter} {r : Created} (hc : CounterOf c r)
    (hshort : r.args.Short) (field : Field) (i : Nat) :
    Emits pb.toObserver (encodeCounter pb.toNanopbCalls env field i c)
      (IsMetric field env.startTimeUnix r) := by
  obtain ⟨args, old, increments, hr, htexts, hcount⟩ := hc
  rw [hr] at hshort
  have hsum := encodeMessage_emits pb (.cons (encodeNumberDataPoint_emits pb env c.count)
    (.cons (singular_emits pb .aggregationTemporality c.aggregation.toValue)
      (.cons (singular_emits pb .isMonotonic (.bool true)) .nil))) .sum
  unfold encodeCounter counterMetric
  rw [htexts]
  refine (metric_emits pb hshort old c.count (env.behindCounter i) hsum field).mono ?_
  rintro ts ⟨_, ⟨body, hbody, rfl⟩, rfl⟩
  simp only [cats_cons] at hbody
  obtain ⟨_, _, ⟨now, rfl⟩, ⟨_, _, rfl, ⟨_, _, rfl, hnil, rfl⟩, rfl⟩, rfl⟩ := hbody
  obtain rfl := cats_nil.mp hnil
  have haggregation : singularTokens .aggregationTemporality c.aggregation.toValue =
      [.value .aggregationTemporality c.aggregation.toValue] := by
    cases c.aggregation <;> rfl
  have hmonotonic : singularTokens .isMonotonic (.bool true) = [.value .isMonotonic (.bool true)] :=
    rfl
  refine ⟨now, ?_⟩
  rw [hcount, hr, haggregation, hmonotonic]
  simp [dataTokens, Created.args]

theorem encodeGauge_emits {g : OtelMetricsGauge} {r : Created} (hg : GaugeOf g r)
    (hshort : r.args.Short) (field : Field) (i : Nat) :
    Emits pb.toObserver (encodeGauge pb.toNanopbCalls env field i g)
      (IsMetric field env.startTimeUnix r) := by
  obtain ⟨args, old, values, hr, htexts, hvalue⟩ := hg
  rw [hr] at hshort
  have hgauge := encodeMessage_emits pb
    (.cons (encodeNumberDataPoint_emits pb env g.value) .nil) .gauge
  unfold encodeGauge gaugeMetric
  rw [htexts]
  refine (metric_emits pb hshort old g.value (env.behindGauge i) hgauge field).mono ?_
  rintro ts ⟨_, ⟨body, hbody, rfl⟩, rfl⟩
  simp only [cats_cons] at hbody
  obtain ⟨_, _, ⟨now, rfl⟩, hnil, rfl⟩ := hbody
  obtain rfl := cats_nil.mp hnil
  refine ⟨now, ?_⟩
  rw [hvalue, hr]
  simp [dataTokens, Created.args]

end Emit

/-! ## The law -/

theorem createdCounters_short {ops : List MetricOp} (h : ∀ op ∈ ops, op.TextsShort) (n : Nat) :
    ∀ r ∈ createdCounters n ops, r.args.Short := by
  induction ops generalizing n with
  | nil => simp [createdCounters]
  | cons op ops ih =>
    obtain ⟨hop, hops⟩ := List.forall_mem_cons.mp h
    cases op with
    | createCounter args aggregation old =>
      exact List.forall_mem_cons.mpr ⟨hop, ih hops (n + 1)⟩
    | createGauge => exact ih hops n
    | counterAdd => exact ih hops n
    | gaugeSet => exact ih hops n

theorem createdGauges_short {ops : List MetricOp} (h : ∀ op ∈ ops, op.TextsShort) (n : Nat) :
    ∀ r ∈ createdGauges n ops, r.args.Short := by
  induction ops generalizing n with
  | nil => simp [createdGauges]
  | cons op ops ih =>
    obtain ⟨hop, hops⟩ := List.forall_mem_cons.mp h
    cases op with
    | createGauge args old => exact List.forall_mem_cons.mpr ⟨hop, ih hops (n + 1)⟩
    | createCounter => exact ih hops n
    | counterAdd => exact ih hops n
    | gaugeSet => exact ih hops n

/-- No more instruments than operations. -/
theorem created_length (n : Nat) (ops : List MetricOp) :
    (createdCounters n ops).length ≤ ops.length ∧ (createdGauges n ops).length ≤ ops.length := by
  induction ops generalizing n with
  | nil => simp [createdCounters, createdGauges]
  | cons op ops ih =>
    have hnow := ih n
    have hnext := ih (n + 1)
    cases op <;> simp only [createdCounters, createdGauges, List.length_cons] <;> omega

section Law

variable {σ : Type} (pb : Nanopb σ) (env : Surroundings σ)

/-- The writers of the instruments emit their metrics. -/
theorem visits_emit {ν : Type} {visit : Nat → ν → Writer σ} {R : ν → Created → Prop} {field : Field}
    {xs : List ν} {rs : List Created} (h : List.Forall₂ R xs rs) (hshort : ∀ r ∈ rs, r.args.Short)
    (hvisit : ∀ i x r, R x r → r.args.Short →
      Emits pb.toObserver (visit i x) (IsMetric field env.startTimeUnix r)) :
    List.Forall₂ (Emits pb.toObserver) (xs.mapIdx visit)
      (rs.map (IsMetric field env.startTimeUnix)) := by
  induction h generalizing visit with
  | nil => exact .nil
  | cons hx _ ih =>
    obtain ⟨hr, hrs⟩ := List.forall_mem_cons.mp hshort
    rw [List.mapIdx_cons, List.map_cons]
    exact .cons (hvisit 0 _ _ hx hr) (ih hrs (fun i => hvisit (i + 1)))

/-- After any history, with fuel for its instruments, a pass is the writers of all of them. -/
theorem encodeMetrics_run (ops : List MetricOp) (h : ∀ op ∈ ops, op.TextsShort) {fuel : Nat}
    (hfuel : ops.length ≤ fuel) (field : Field) : ∃ w,
      Emits pb.toObserver w
        (Cats ((exportOrder ops).map (IsMetric field env.startTimeUnix))) ∧
      ∀ s, encodeMetrics pb.toNanopbCalls env (run Metrics.apply .start ops) fuel field s =
        some (w s) := by
  have hcounters : List.Forall₂ CounterOf (run Metrics.apply .start ops).counters.values
      (createdCounters 0 ops) := by
    rw [run_counters, values_foldl]
    exact counters_created 0 ops
  have hgauges : List.Forall₂ GaugeOf (run Metrics.apply .start ops).gauges.values
      (createdGauges 0 ops) := by
    rw [run_gauges, values_foldl]
    exact gauges_created 0 ops
  have hlength := created_length 0 ops
  have hcs := visits_emit pb env hcounters (createdCounters_short h 0)
    (fun i c r hc hr => encodeCounter_emits pb env hc hr field i)
  have hgs := visits_emit pb env hgauges (createdGauges_short h 0)
    (fun i g r hg hr => encodeGauge_emits pb env hg hr field i)
  have hall := Emits.all (List.rel_append (List.rel_reverse hcs) (List.rel_reverse hgs))
  simp only [← List.map_reverse, ← List.map_append] at hall
  refine ⟨_, hall, fun s => ?_⟩
  have hclen : (run Metrics.apply .start ops).counters.cells.length ≤ fuel := by
    rw [← values_length, hcounters.length_eq]
    omega
  have hglen : (run Metrics.apply .start ops).gauges.cells.length ≤ fuel := by
    rw [← values_length, hgauges.length_eq]
    omega
  unfold encodeMetrics
  rw [walk_all _ _ hclen, all_append]
  unfold Writer.andThen
  cases hfirst : Writer.all _ s with
  | mk ok s' => cases ok <;> simp [walk_all _ _ hglen]

/-- A pass that succeeds has exported each instrument of the history. It succeeds just when no call
of nanopb fails in it. -/
theorem a_pass_exports_every_instrument (ops : List MetricOp) (h : ∀ op ∈ ops, op.TextsShort)
    (field : Field) (s : σ) {fuel : Nat} (hfuel : ops.length ≤ fuel) : ∃ ok s',
      encodeMetrics pb.toNanopbCalls env (run Metrics.apply .start ops) fuel field s =
        some (ok, s') ∧
      (ok = true → ∃ metrics, pb.out s' = pb.out s ++ metrics.flatten ∧
        List.Forall₂ (IsMetric field env.startTimeUnix) (exportOrder ops) metrics) ∧
      (pb.failed s = false → (ok = true ↔ pb.failed s' = false)) := by
  obtain ⟨w, hw, heq⟩ := encodeMetrics_run pb env ops h hfuel field
  refine ⟨(w s).1, (w s).2, heq s, ?_, hw.succeeds_iff⟩
  intro hok
  obtain ⟨-, ts, ⟨metrics, hmetrics, rfl⟩, hout⟩ := hw.succeeds s hok
  refine ⟨metrics, hout, ?_⟩
  rwa [List.forall₂_map_left_iff] at hmetrics

end Law

/-- A counter that counts to 7, and a gauge that is set twice. -/
def twoInstruments : List MetricOp :=
  [.createCounter ⟨ascii "requests", ascii "served", ascii "1"⟩ .cumulative
      ⟨List.replicate valueOff 255, List.length_replicate⟩,
    .counterAdd 0 3,
    .createGauge ⟨ascii "heap", ascii "free", ascii "By"⟩
      ⟨List.replicate valueOff 255, List.length_replicate⟩,
    .gaugeSet 0 100, .counterAdd 0 4, .gaugeSet 0 90]

def atNoon : Surroundings Stream := ⟨1000, fun _ => 2000, fun _ => [], fun _ => []⟩

/-- With a nanopb none of whose calls fails, the pass succeeds and has exported both. -/
theorem two_instruments_are_exported : ∃ s' metrics,
    encodeMetrics (twoPass fun _ => true).toNanopbCalls atNoon
      (run Metrics.apply .start twoInstruments) 6 .metrics ⟨0, false, []⟩ = some (true, s') ∧
    s'.broken = false ∧ s'.tokens = metrics.flatten ∧
    List.Forall₂ (IsMetric .metrics 1000) (exportOrder twoInstruments) metrics := by
  obtain ⟨ok, s', hpass, hexport, hiff⟩ := a_pass_exports_every_instrument (twoPass fun _ => true)
    atNoon twoInstruments (by decide) .metrics ⟨0, false, []⟩
    (show twoInstruments.length ≤ 6 by decide)
  have hreturn : (encodeMetrics (twoPass fun _ => true).toNanopbCalls atNoon
      (run Metrics.apply .start twoInstruments) 6 .metrics ⟨0, false, []⟩).map Prod.fst =
        some true := by decide +kernel
  have hok : ok = true := by
    rw [hpass] at hreturn
    exact Option.some.inj hreturn
  subst hok
  obtain ⟨metrics, hout, hmetrics⟩ := hexport rfl
  exact ⟨s', metrics, hpass, (hiff rfl).mp rfl, hout, hmetrics⟩

/-- A call in the middle of the pass fails. -/
example : (encodeMetrics (twoPass fun n => n ≠ 30).toNanopbCalls atNoon
    (run Metrics.apply .start twoInstruments) 6 .metrics ⟨0, false, []⟩).map Prod.fst =
      some false := by decide +kernel

end isere.otel

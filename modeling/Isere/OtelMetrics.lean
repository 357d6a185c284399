-- The instruments of src/otel.c, and the callbacks that encode them: two linked
-- lists of blocks, with the texts in fixed fields, and what nanopb is asked to
-- write of them.
import Isere.Nanopb
import Isere.PushList
import Isere.Regions

open cstring emitter push_list regions

namespace isere.otel

def ISERE_OTEL_METRIC_MAX_NAME_LEN : Nat := 64
def ISERE_OTEL_METRIC_MAX_DESCRIPTION_LEN : Nat := 64
def ISERE_OTEL_METRIC_MAX_UNIT_LEN : Nat := 8

def descriptionOff : Nat := ISERE_OTEL_METRIC_MAX_NAME_LEN
def unitOff : Nat := descriptionOff + ISERE_OTEL_METRIC_MAX_DESCRIPTION_LEN
def valueOff : Nat := unitOff + ISERE_OTEL_METRIC_MAX_UNIT_LEN

/-! ## The instruments -/

/-- `name`, `description` and `unit`, which lie one after the other in the struct. -/
abbrev Texts := { b : Bytes // b.length = valueOff }

/-- The arguments of the functions that create an instrument, as strings in memory. -/
structure TextArgs where
  name : Bytes
  description : Bytes
  unit : Bytes

/-- The three calls of `strncpy`, on what `pvPortMalloc` left in the block. -/
def Texts.copy (old : Texts) (args : TextArgs) : Texts where
  val :=
    let b := strncpy old.val 0 args.name ISERE_OTEL_METRIC_MAX_NAME_LEN
    let b := strncpy b descriptionOff args.description ISERE_OTEL_METRIC_MAX_DESCRIPTION_LEN
    strncpy b unitOff args.unit ISERE_OTEL_METRIC_MAX_UNIT_LEN
  property := by
    have hname := strncpy_length args.name
      (show 0 + ISERE_OTEL_METRIC_MAX_NAME_LEN ≤ _ by rw [old.property]; decide)
    have hdescription := strncpy_length args.description
      (show descriptionOff + ISERE_OTEL_METRIC_MAX_DESCRIPTION_LEN ≤ _ by
        rw [hname, old.property]; decide)
    have hunit := strncpy_length args.unit
      (show unitOff + ISERE_OTEL_METRIC_MAX_UNIT_LEN ≤ _ by
        rw [hdescription, hname, old.property]; decide)
    rw [hunit, hdescription, hname, old.property]

/-- `enum otel_metrics_counter_aggregation_temporality_t`. -/
inductive AggregationTemporality
  | delta
  | cumulative
  deriving DecidableEq, Repr

/-- `otel_metrics_counter_t`. Its `next` is in the cell of the list. -/
structure OtelMetricsCounter where
  texts : Texts
  count : Int64
  aggregation : AggregationTemporality

/-- `otel_metrics_gauge_t`. -/
structure OtelMetricsGauge where
  texts : Texts
  value : Int64

/-- `__counters_head` and `__gauges_head`, and the blocks behind them. -/
structure Metrics where
  counters : PushList OtelMetricsCounter
  gauges : PushList OtelMetricsGauge

def Metrics.start : Metrics := ⟨.empty, .empty⟩

def isereOtelCreateCounter (m : Metrics) (args : TextArgs) (aggregation : AggregationTemporality)
    (old : Texts) : Metrics :=
  { m with counters := m.counters.push { texts := old.copy args, count := 0, aggregation } }

def isereOtelCounterAdd (m : Metrics) (counter : Nat) (increment : Int64) : Metrics :=
  { m with counters := m.counters.modify counter fun c => { c with count := c.count + increment } }

def isereOtelCreateGauge (m : Metrics) (args : TextArgs) (old : Texts) : Metrics :=
  { m with gauges := m.gauges.push { texts := old.copy args, value := 0 } }

def isereOtelGaugeSet (m : Metrics) (gauge : Nat) (value : Int64) : Metrics :=
  { m with gauges := m.gauges.modify gauge fun g => { g with value } }

/-! ## What nanopb is asked to write -/

/-- A 64-bit number in memory, lowest byte first. -/
def le64 (v : Int64) : Bytes :=
  (List.range 8).map fun i => (v.toUInt64 >>> (8 * i).toUInt64).toUInt8

/-- The memory from a field of an instrument on: the texts from there, the number after them, and
what comes behind it. -/
def fieldMemory (texts : Texts) (number : Int64) (behind : Bytes) (off : Nat) : Bytes :=
  texts.val.drop off ++ le64 number ++ behind

/-- What the callbacks read besides the instruments: the times, and the memory behind the number
of each instrument. -/
structure Surroundings (σ : Type) where
  startTimeUnix : UInt64
  isereRtcGetUnixTimestamp : σ → UInt64
  behindCounter : Nat → Bytes
  behindGauge : Nat → Bytes

section Encode

variable {σ : Type} (pb : NanopbCalls σ) (env : Surroundings σ)

def encodeString (arg : Bytes) (field : Field) : Writer σ :=
  (pb.pbEncodeTagForField field).andThen (pb.pbEncodeString (cstr arg))

/-- A field that is a message itself, which nanopb encodes. -/
def encodeMessage (fields : List (MessageField σ)) (field : Field) : Writer σ :=
  (pb.pbEncodeTagForField field).andThen (pb.pbEncodeSubmessage fields)

def nanos (seconds : UInt64) : UInt64 := seconds * 1000 * 1000 * 1000

/-- `data_point`. -/
def dataPoint (startTimeUnix timestamp : UInt64) (intValue : Int64) : List (MessageField σ) :=
  [.singular .startTimeUnixNano (.fixed64 (nanos startTimeUnix)),
   .singular .timeUnixNano (.fixed64 (nanos timestamp)),
   .oneof .asInt (.int64 intValue)]

/-- The clock is read before the first call of nanopb. -/
def encodeNumberDataPoint (intValue : Int64) (field : Field) : Writer σ := fun s =>
  encodeMessage pb (dataPoint env.startTimeUnix (env.isereRtcGetUnixTimestamp s) intValue) field s

/-- The callbacks of the texts of a metric. -/
def textFields (texts : Texts) (number : Int64) (behind : Bytes) : List (MessageField σ) :=
  [.callback .name (encodeString pb (fieldMemory texts number behind 0)),
   .callback .description (encodeString pb (fieldMemory texts number behind descriptionOff)),
   .callback .unit (encodeString pb (fieldMemory texts number behind unitOff))]

def AggregationTemporality.toValue (a : AggregationTemporality) : Value :=
  if a = .delta then .enum 1 else .enum 2

def counterMetric (behind : Bytes) (c : OtelMetricsCounter) : List (MessageField σ) :=
  textFields pb c.texts c.count behind ++
    [.callback .sum (encodeMessage pb
      [.callback .dataPoints (encodeNumberDataPoint pb env c.count),
       .singular .aggregationTemporality c.aggregation.toValue,
       .singular .isMonotonic (.bool true)])]

def gaugeMetric (behind : Bytes) (g : OtelMetricsGauge) : List (MessageField σ) :=
  textFields pb g.texts g.value behind ++
    [.callback .gauge (encodeMessage pb
      [.callback .dataPoints (encodeNumberDataPoint pb env g.value)])]

/-- The body of the loop over the counters. -/
def encodeCounter (field : Field) (i : Nat) (c : OtelMetricsCounter) : Writer σ :=
  encodeMessage pb (counterMetric pb env (env.behindCounter i) c) field

/-- The body of the loop over the gauges. -/
def encodeGauge (field : Field) (i : Nat) (g : OtelMetricsGauge) : Writer σ :=
  encodeMessage pb (gaugeMetric pb env (env.behindGauge i) g) field

/-- The two loops, each with fuel for that many cells. -/
def encodeMetrics (m : Metrics) (fuel : Nat) (field : Field) (s : σ) : Option (Bool × σ) :=
  match walk m.counters.cells (encodeCounter pb env field) fuel m.counters.head s with
  | none => none
  | some (false, s) => some (false, s)
  | some (true, s) => walk m.gauges.cells (encodeGauge pb env field) fuel m.gauges.head s

end Encode

/-! ## The resource attributes -/

/-- The blocks of `strdup`, numbered in the order in which it makes them. -/
structure Strings where
  next : Nat
  live : List (Nat × Bytes)
  freed : List Nat
  deriving DecidableEq

def Strings.strdup (m : Strings) (s : Bytes) : Nat × Strings :=
  (m.next, { m with next := m.next + 1, live := (m.next, cstring.strdup s) :: m.live })

def Strings.vPortFree (m : Strings) (p : Nat) : Strings :=
  { m with live := m.live.eraseP (fun b => b.1 = p), freed := p :: m.freed }

/-- The string behind a pointer. -/
def Strings.read (m : Strings) (p : Nat) : Bytes := ((m.live.lookup p).getD [])

/-- `struct otel_kv_t`. -/
structure OtelKv where
  key : Bytes
  value : Bytes

/-- `otel_resource_attrs`, with the name of the runtime from the build. -/
def otelResourceAttrs (runtimeName : Bytes) : List OtelKv :=
  [⟨ascii "service.name", ascii "isere"⟩,
   ⟨ascii "service.version", ascii "0.0.1"⟩,
   ⟨ascii "runtime.name", runtimeName⟩]

section Attributes

variable {σ : Type} (pb : NanopbCalls σ)

/-- `kv`, with the strings that its callbacks get. -/
def keyValue (m : Strings) (key value : Nat) : List (MessageField σ) :=
  [.callback .key (encodeString pb (m.read key)),
   .callback .value (encodeMessage pb
     [.callback .stringValue (encodeString pb (m.read value))])]

/-- The loop of `encode_resource_attributes_kv`. -/
def encodeAttributes (field : Field) : List OtelKv → Strings → σ → Bool × Strings × σ
  | [], m, s => (true, m, s)
  | attr :: attrs, m, s =>
    let (key, m) := m.strdup attr.key
    let (value, m) := m.strdup attr.value
    let tag := pb.pbEncodeTagForField field s
    if !tag.1 then
      (false, (m.vPortFree key).vPortFree value, tag.2)
    else
      let kv := pb.pbEncodeSubmessage (keyValue pb m key value) tag.2
      if !kv.1 then
        (false, (m.vPortFree key).vPortFree value, kv.2)
      else encodeAttributes field attrs m kv.2

def encodeResourceAttributesKv (runtimeName : Bytes) (field : Field) (m : Strings) (s : σ) :
    Bool × Strings × σ :=
  encodeAttributes pb field (otelResourceAttrs runtimeName) m s

end Attributes

end isere.otel

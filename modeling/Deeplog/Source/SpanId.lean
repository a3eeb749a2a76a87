import Deeplog.Lib.Mixer

/-!
# Span ids

`derive_span_id` mixes a trace id with a counter. It is a derivative of xxHASH64 in which the
rotations have become left shifts, so that only the low six bits of the counter reach the
result. Everything else is a bijection: the span ids of a trace repeat exactly when the counters
agree modulo 64.
-/

namespace Deeplog.Source

abbrev U64 := BitVec 64

def prime64_1 : U64 := 0x9e3779b185ebca87
def prime64_2 : U64 := 0xc2b2ae3d27d4eb4f
def prime64_3 : U64 := 0x165667b19e3779f9
def prime64_4 : U64 := 0x85ebca77c2b2ae63
def prime64_5 : U64 := 0x27d4eb2f165667c5

def xxHash64Round (accN laneN : U64) : U64 := (accN + laneN * prime64_2) <<< 31 * prime64_1

/-- The treatment of one word of "remaining" input. -/
def absorb (acc laneN : U64) : U64 :=
  (acc ^^^ xxHash64Round 0 laneN) <<< 27 * prime64_1 + prime64_4

/-- The part behind the comment "mix". -/
def mix (acc : U64) : U64 :=
  let acc := acc ^^^ acc >>> 33
  let acc := acc * prime64_2
  let acc := acc ^^^ acc >>> 29
  let acc := acc * prime64_3
  acc ^^^ acc >>> 32

def deriveSpanId (traceIdP0 traceIdP1 ctr : U64) : U64 :=
  let acc := prime64_5
  let acc := acc + 3 * 8
  mix (absorb (absorb (absorb acc traceIdP0) traceIdP1) ctr)

section Bits

variable {x y : U64}

theorem mix_inj : mix x = mix y ↔ x = y := by
  have h2 : prime64_2 * 0x0ba79078168d4baf#64 = 1#64 := by decide
  have h3 : prime64_3 * 0xe9e9f4c41d6df849#64 = 1#64 := by decide
  simp only [mix, Mixer.xorShift_inj (show 0 < 32 by omega), Mixer.mul_inj h3,
    Mixer.xorShift_inj (show 0 < 29 by omega), Mixer.mul_inj h2,
    Mixer.xorShift_inj (show 0 < 33 by omega)]

/-- The shift by 27 keeps the low 37 bits. -/
theorem absorb_inj {acc : U64} :
    absorb acc x = absorb acc y ↔
      (xxHash64Round 0 x).setWidth 37 = (xxHash64Round 0 y).setWidth 37 := by
  have h1 : prime64_1 * 0x0887493432badb37#64 = 1#64 := by decide
  rw [absorb, absorb, Mixer.add_inj, Mixer.mul_inj h1,
    Mixer.shiftLeft_inj (show 37 + 27 = 64 from rfl),
    BitVec.setWidth_xor, BitVec.setWidth_xor, Mixer.xor_inj]

/-- Of these, the shift by 31 in the round leaves six bits of the lane. -/
theorem xxHash64Round_low_inj :
    (xxHash64Round 0 x).setWidth 37 = (xxHash64Round 0 y).setWidth 37 ↔
      x.toNat % 64 = y.toNat % 64 := by
  have h1 : prime64_1.setWidth 37 * 0x1432badb37#37 = 1#37 := by decide
  have h2 : prime64_2.setWidth 6 * 0x2f#6 = 1#6 := by decide
  have hlow : ∀ z : U64, (xxHash64Round 0 z).setWidth 37 =
      (z * prime64_2).setWidth 37 <<< 31 * prime64_1.setWidth 37 := by
    intro z
    rw [xxHash64Round, BitVec.ofNat_eq_ofNat, BitVec.zero_add, BitVec.setWidth_mul _ _ (by omega),
      Mixer.setWidth_shiftLeft (by omega)]
  have hsix : ∀ z : U64, ((z * prime64_2).setWidth 37).setWidth 6 =
      z.setWidth 6 * prime64_2.setWidth 6 := by
    intro z
    rw [BitVec.setWidth_setWidth_of_le _ (by omega), BitVec.setWidth_mul _ _ (by omega)]
  rw [hlow, hlow, Mixer.mul_inj h1, Mixer.shiftLeft_inj (show 6 + 31 = 37 from rfl), hsix, hsix,
    Mixer.mul_inj h2, Mixer.setWidth_inj]
  exact Iff.rfl

end Bits

/-- Two counters give the same span id exactly if they agree modulo 64. -/
theorem deriveSpanId_inj {p0 p1 c1 c2 : U64} :
    deriveSpanId p0 p1 c1 = deriveSpanId p0 p1 c2 ↔ c1.toNat % 64 = c2.toNat % 64 := by
  simp only [deriveSpanId, mix_inj, absorb_inj, xxHash64Round_low_inj]

/-! ## Runs of `create_span_context` -/

/-- `trace_id`, read as two words. -/
structure TraceId where
  p0 : U64
  p1 : U64
  deriving DecidableEq

def TraceId.invalid : TraceId := ⟨0, 0⟩

structure SpanContext where
  traceId : TraceId
  spanId : U64
  deriving DecidableEq

/-- The arguments of a call of `create_span_context` that matter: the trace, and the value that
`trace_id::random` has if it is asked. -/
structure SpanRequest where
  trace : TraceId
  random : TraceId

def SpanRequest.effective (request : SpanRequest) : TraceId :=
  if request.trace = .invalid then request.random else request.trace

/-- `create_span_context` of a handle with a counter for each region. -/
def createSpanContext (regionOf : TraceId → Nat) (ctrs : Nat → U64) (request : SpanRequest) :
    SpanContext × (Nat → U64) :=
  let trace := request.effective
  let regionId := regionOf trace
  let ctr := ctrs regionId
  (⟨trace, deriveSpanId trace.p0 trace.p1 ctr⟩, Function.update ctrs regionId (ctr + 1))

/-- `detail::hash_to_index` -/
def hashToIndex (h buckets : Nat) : Nat := h * buckets % 2 ^ 64 / 2 ^ 32

namespace MpscBus

/-- The region whose counter serves a trace. -/
def regionOf (numRegions : Nat) (trace : TraceId) : Nat :=
  let word (p : U64) (i : Nat) : BitVec 32 := p.extractLsb' (32 * i) 32
  let h := word trace.p0 0 ^^^ word trace.p0 1 ^^^ word trace.p1 0 ^^^ word trace.p1 1
  hashToIndex h.toNat numRegions

/-- `mpsc_bus_handle::create_span_context`, with the `span_prng_ctr` of all regions. -/
def createSpanContext (numRegions : Nat) :=
  Source.createSpanContext (regionOf numRegions)

end MpscBus

namespace BufferBus

/-- `bufferbus_handle::create_span_context`, with `mSpanPrngCtr` as the only counter. -/
def createSpanContext := Source.createSpanContext fun _ => 0

end BufferBus

/-- The span contexts that a sequence of calls returns. -/
def spanRun (create : (Nat → U64) → SpanRequest → SpanContext × (Nat → U64)) :
    (Nat → U64) → List SpanRequest → List SpanContext
  | _, [] => []
  | ctrs, request :: rest => (create ctrs request).1 :: spanRun create (create ctrs request).2 rest

/-- The number of calls in a sequence that draw from the given region. -/
def draws (regionOf : TraceId → Nat) (regionId : Nat) (requests : List SpanRequest) : Nat :=
  (requests.filter fun request => regionOf request.effective = regionId).length

variable (regionOf : TraceId → Nat)

theorem draws_cons (regionId : Nat) (request : SpanRequest) (rest : List SpanRequest) :
    draws regionOf regionId (request :: rest) =
      (if regionOf request.effective = regionId then 1 else 0) + draws regionOf regionId rest := by
  simp only [draws, List.filter_cons]
  split_ifs <;> simp_all; omega

/-- Every call counts up the counter of its region. -/
theorem spanRun_getElem? (ctrs : Nat → U64) (requests : List SpanRequest) (i : Nat) :
    (spanRun (createSpanContext regionOf) ctrs requests)[i]? =
      requests[i]?.map fun request => ⟨request.effective,
        deriveSpanId request.effective.p0 request.effective.p1
          (ctrs (regionOf request.effective) +
            .ofNat 64 (draws regionOf (regionOf request.effective) (requests.take i)))⟩ := by
  induction requests generalizing ctrs i with
  | nil => simp [spanRun]
  | cons request rest ih =>
    cases i with
    | zero => simp [spanRun, createSpanContext, draws]
    | succ i =>
      have hctr : ∀ regionId, (createSpanContext regionOf ctrs request).2 regionId +
          .ofNat 64 (draws regionOf regionId (rest.take i)) =
            ctrs regionId + .ofNat 64 (draws regionOf regionId (request :: rest.take i)) := by
        intro regionId
        simp only [draws_cons, createSpanContext, BitVec.ofNat_add]
        by_cases hr : regionOf request.effective = regionId
        · subst hr
          rw [Function.update_self, if_pos rfl, BitVec.add_assoc]; rfl
        · rw [Function.update_of_ne (Ne.symm hr), if_neg hr, BitVec.zero_add]
      simp only [spanRun, List.getElem?_cons_succ, ih, List.take_succ_cons, hctr]

/-- The calls between two calls for one trace, which draw from the same region. -/
def drawsBetween (requests : List SpanRequest) (i j : Nat) (trace : TraceId) : Nat :=
  draws regionOf (regionOf trace) ((requests.take j).drop i)

/-- Two calls for one trace return the same span id exactly if the number of draws from the
trace's region from the one to the other is a multiple of 64. -/
theorem spanRun_repeats_iff {ctrs : Nat → U64} {requests : List SpanRequest} {i j : Nat}
    (hij : i < j) {a b : SpanContext}
    (ha : (spanRun (createSpanContext regionOf) ctrs requests)[i]? = some a)
    (hb : (spanRun (createSpanContext regionOf) ctrs requests)[j]? = some b)
    (htrace : a.traceId = b.traceId) :
    a.spanId = b.spanId ↔ drawsBetween regionOf requests i j a.traceId % 64 = 0 := by
  rw [spanRun_getElem?] at ha hb
  obtain ⟨ra, hra, rfl⟩ := Option.map_eq_some_iff.mp ha
  obtain ⟨rb, hrb, rfl⟩ := Option.map_eq_some_iff.mp hb
  simp only at htrace ⊢
  rw [← htrace, deriveSpanId_inj, drawsBetween]
  have hsplit : draws regionOf (regionOf ra.effective) (requests.take j) =
      draws regionOf (regionOf ra.effective) (requests.take i) +
        draws regionOf (regionOf ra.effective) ((requests.take j).drop i) := by
    have htake : requests.take i = (requests.take j).take i := by
      rw [List.take_take, Nat.min_eq_left hij.le]
    rw [htake, draws, draws, draws, ← List.length_append, ← List.filter_append,
      List.take_append_drop]
  rw [hsplit]
  simp only [BitVec.toNat_add, BitVec.toNat_ofNat]
  omega

/-- No two contexts of one trace share a span id. -/
def DistinctSpans (contexts : List SpanContext) : Prop :=
  ∀ (i j : Nat) (a b : SpanContext), i < j → contexts[i]? = some a → contexts[j]? = some b →
    a.traceId = b.traceId → a.spanId ≠ b.spanId

/-- No two calls for one trace are a multiple of 64 draws apart. -/
def NoLap (requests : List SpanRequest) : Prop :=
  ∀ (i j : Nat) (a b : SpanRequest), i < j → requests[i]? = some a → requests[j]? = some b →
    a.effective = b.effective → drawsBetween regionOf requests i j a.effective % 64 ≠ 0

theorem distinctSpans_iff (ctrs : Nat → U64) (requests : List SpanRequest) :
    DistinctSpans (spanRun (createSpanContext regionOf) ctrs requests) ↔
      NoLap regionOf requests := by
  have hget := spanRun_getElem? regionOf ctrs requests
  constructor
  · intro h i j a b hij ha hb htrace
    have hi := hget i
    have hj := hget j
    rw [ha, Option.map_some] at hi
    rw [hb, Option.map_some] at hj
    exact fun hmod => h i j _ _ hij hi hj htrace
      ((spanRun_repeats_iff regionOf hij hi hj htrace).mpr hmod)
  · intro h i j a b hij ha hb htrace heq
    have hmod := (spanRun_repeats_iff regionOf hij ha hb htrace).mp heq
    rw [hget] at ha hb
    obtain ⟨ra, hra, rfl⟩ := Option.map_eq_some_iff.mp ha
    obtain ⟨rb, hrb, rfl⟩ := Option.map_eq_some_iff.mp hb
    exact h i j ra rb hij hra hrb htrace hmod

/-- Span ids differ exactly where the counters differ modulo 64, so that the ids of a trace repeat
in a run of either handle once a multiple of 64 draws lies between two calls. -/
theorem span_ids_distinct_iff (p0 p1 c1 c2 : U64) (numRegions : Nat) (ctrs : Nat → U64)
    (requests : List SpanRequest) :
    (deriveSpanId p0 p1 c1 ≠ deriveSpanId p0 p1 c2 ↔ c1.toNat % 64 ≠ c2.toNat % 64) ∧
    (DistinctSpans (spanRun (MpscBus.createSpanContext numRegions) ctrs requests) ↔
      NoLap (MpscBus.regionOf numRegions) requests) ∧
    (DistinctSpans (spanRun BufferBus.createSpanContext ctrs requests) ↔
      NoLap (fun _ => 0) requests) :=
  ⟨not_congr deriveSpanId_inj, distinctSpans_iff (MpscBus.regionOf numRegions) ctrs requests,
    distinctSpans_iff (fun _ => 0) ctrs requests⟩

/-- The counters 0 and 64 give one id. -/
theorem span_ids_repeat : ¬ ∀ p0 p1 c1 c2 : U64, c1 ≠ c2 →
    deriveSpanId p0 p1 c1 ≠ deriveSpanId p0 p1 c2 :=
  fun h => h 0 0 0 64 (by decide) (by decide)

end Deeplog.Source

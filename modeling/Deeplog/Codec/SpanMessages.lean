import Deeplog.Codec.Attributes
import Deeplog.Sink.Container
import Deeplog.Sink.Preparse
import Deeplog.Source.SpanScope

/-!
# Span messages

The codecs of `span_context`, `span_start_msg` and `span_end_msg`, and `enqueue_message`, which
allocates what `size_of` has measured. A context without ids is null. On its way to a container a
message keeps its bytes, whatever the bus has left behind them.
-/

namespace Deeplog.Codec

open Cbor (Bytes)
open Source (SpanKind)

/-- What the ids of spans ask of deeppack. -/
structure SpanPrimitives extends ItemPrimitives where
  emitNull : Bytes
  emitNull_eq : emitNull = [0xf6]
  emitBinary_item : ∀ bs : Bytes, bs.length < 2 ^ 64 → Cbor.Item (emitBinary bs)
  expectItemHead_binary : ∀ (bs : Bytes) rest, bs.length < 2 ^ 64 →
    expectItemHead .binary bs.length (emitBinary bs ++ rest) = some ((), bs ++ rest)

def plainSpans : SpanPrimitives where
  toItemPrimitives := plainItems
  emitNull := [0xf6]
  emitNull_eq := rfl
  emitBinary_item _ hlen := Cbor.item_string (.inl rfl) hlen
  expectItemHead_binary bs rest hlen := by
    have hhead := Primitives.expectHead_encodeHead .binary hlen (bs ++ rest)
    rwa [← List.append_assoc] at hhead

/-- `bulk_read` into an id. -/
def bulkRead (n : Nat) : Parse (Vector UInt8 n) := fun ctx =>
  if h : (ctx.take n).length = n then some (⟨(ctx.take n).toArray, by simpa using h⟩, ctx.drop n)
  else none

structure SpanStartMsg where
  id : SpanContext
  kind : SpanKind
  parent : SpanContext
  timestamp : UInt64
  name : Bytes
  attributes : AttributeArgs

structure SpanEndMsg where
  id : SpanContext
  timestamp : UInt64

/-- The underlying value of a `span_kind`. -/
def kindValue : SpanKind → Nat
  | .internal => 0
  | .consumer => 1
  | .producer => 2
  | .client => 3
  | .server => 4

namespace SpanPrimitives

variable (dp : SpanPrimitives)

/-- The codecs of `trace_id` and `span_id`. -/
def decodeId (n : Nat) : Parse (Vector UInt8 n) := do
  dp.expectItemHead .binary n
  bulkRead n

def encodeId {n : Nat} (id : Vector UInt8 n) : Bytes := dp.emitBinary id.toList

/-- The part of `codec<span_context>::decode` behind the test for null. -/
def decodeSpanTuple : Parse SpanContext := do
  dp.expectItemHead .array 2
  let traceId ← dp.decodeId 16
  let spanId ← dp.decodeId 8
  pure { traceId, spanId }

def decodeSpanContext : Parse SpanContext
  | [] => none
  | byte :: rest =>
    if byte = 0xf6 then some (.empty, rest) else dp.decodeSpanTuple (byte :: rest)

def sizeOfSpanContext (spanCtx : SpanContext) : Nat :=
  if spanCtx = .empty then 1 else 1 + (1 + 16) + (1 + 8)

def encodeSpanContext (spanCtx : SpanContext) : Bytes :=
  if spanCtx = .empty then dp.emitNull
  else dp.emitArray 2 ++ dp.encodeId spanCtx.traceId ++ dp.encodeId spanCtx.spanId

/-- The members of a `span_start_msg`, in the order of its layout. There are never any links. -/
def startPieces (msg : SpanStartMsg) : List Bytes :=
  [dp.emitArray 7, dp.encodeSpanContext msg.id, dp.emitInteger (kindValue msg.kind),
    dp.encodeSpanContext msg.parent, dp.emitInteger msg.timestamp.toNat, dp.emitU8string msg.name,
    dp.emitArray 0, dp.encodeAttributes msg.attributes]

def sizeOfStart (msg : SpanStartMsg) : Nat :=
  (dp.emitArray 7).length + sizeOfSpanContext msg.id +
    (dp.emitInteger (kindValue msg.kind)).length + sizeOfSpanContext msg.parent +
    (dp.emitInteger msg.timestamp.toNat).length + (dp.emitU8string msg.name).length +
    (dp.emitArray 0).length + dp.sizeOfAttributes msg.attributes

def endPieces (msg : SpanEndMsg) : List Bytes :=
  [dp.emitArray 2, dp.encodeSpanContext msg.id, dp.emitInteger msg.timestamp.toNat]

def sizeOfEnd (msg : SpanEndMsg) : Nat :=
  (dp.emitArray 2).length + sizeOfSpanContext msg.id + (dp.emitInteger msg.timestamp.toNat).length

/-- `enqueue_message`: the message on the bus, up to where it has been written. Every write is
checked. -/
def enqueueMessage (partly : Bytes → Nat → Nat) (allocate : Nat → Option Nat) (msgSize : Nat)
    (pieces : List Bytes) : Option Bytes := do
  let capacity ← allocate msgSize
  (pieces.map Piece.checked).foldlM (Piece.emit partly capacity) []

/-! ## Contexts -/

theorem bulkRead_toList {n : Nat} (id : Vector UInt8 n) : Reads (bulkRead n) id.toList id := by
  intro rest
  have htake : (id.toList ++ rest).take n = id.toList := List.take_left' (by simp)
  have hlength : ((id.toList ++ rest).take n).length = n := by simp [htake]
  rw [bulkRead, dif_pos hlength, List.drop_left' (by simp)]
  simp only [htake]
  simp [Vector.toList]

theorem reads_id {n : Nat} (hn : n < 2 ^ 64) (id : Vector UInt8 n) :
    Reads (dp.decodeId n) (dp.encodeId id) id := by
  intro rest
  have hlength : id.toList.length = n := by simp
  have hhead := dp.expectItemHead_binary id.toList rest (by omega)
  rw [hlength] at hhead
  rw [decodeId, encodeId, Parse.bind_of_eq hhead]
  exact bulkRead_toList id rest

/-- Every context comes back, also the one that is written as null. -/
theorem reads_spanContext (spanCtx : SpanContext) :
    Reads dp.decodeSpanContext (dp.encodeSpanContext spanCtx) spanCtx := by
  intro rest
  by_cases hempty : spanCtx = .empty
  · rw [encodeSpanContext, if_pos hempty, dp.emitNull_eq, hempty]
    rfl
  · have harray : dp.emitArray 2 = [0x82] := dp.emitArray_eq 2 (by decide)
    rw [encodeSpanContext, if_neg hempty, harray]
    have hhead := dp.expectItemHead_array 2
      (dp.encodeId spanCtx.traceId ++ (dp.encodeId spanCtx.spanId ++ rest)) (by decide)
    rw [harray] at hhead
    have htrace := dp.reads_id (by decide) spanCtx.traceId (dp.encodeId spanCtx.spanId ++ rest)
    have hspan := dp.reads_id (by decide) spanCtx.spanId rest
    simp only [List.append_assoc, List.cons_append] at hhead ⊢
    rw [decodeSpanContext, if_neg (by decide), decodeSpanTuple, Parse.bind_of_eq hhead,
      Parse.bind_of_eq htrace, Parse.bind_of_eq hspan]
    rfl

theorem encodeSpanContext_length (spanCtx : SpanContext) :
    (dp.encodeSpanContext spanCtx).length = sizeOfSpanContext spanCtx := by
  have htrace := dp.emitBinary_small spanCtx.traceId.toList (by simp)
  have hspan := dp.emitBinary_small spanCtx.spanId.toList (by simp)
  rw [Vector.length_toList] at htrace hspan
  rw [encodeSpanContext, sizeOfSpanContext]
  split
  · rw [dp.emitNull_eq]
    rfl
  · simp [encodeId, dp.emitArray_small 2, htrace, hspan]

theorem spanContext_item (spanCtx : SpanContext) : Cbor.Item (dp.encodeSpanContext spanCtx) := by
  rw [encodeSpanContext]
  split
  · rw [dp.emitNull_eq]
    decide
  · have htrace := dp.emitBinary_item spanCtx.traceId.toList (by simp)
    have hspan := dp.emitBinary_item spanCtx.spanId.toList (by simp)
    rw [dp.emitArray_eq 2 (by decide), List.append_assoc]
    exact Cbor.item_array (by decide) (.cons htrace (item_single hspan))

/-! ## Messages -/

variable {dp}

/-- A message that has been measured with enough bytes is written whenever it is allocated. -/
theorem enqueueMessage_eq {partly : Bytes → Nat → Nat} {allocate : Nat → Option Nat}
    {msgSize : Nat} {pieces : List Bytes} (hsize : pieces.flatten.length ≤ msgSize)
    (hport : ∀ n capacity, allocate n = some capacity → n ≤ capacity) :
    enqueueMessage partly allocate msgSize pieces =
      (allocate msgSize).map fun _ => pieces.flatten := by
  have hbytes : bytesOf (pieces.map Piece.checked) = pieces.flatten := by
    induction pieces with
    | nil => rfl
    | cons piece pieces ih =>
      rw [List.flatten_cons, List.length_append] at hsize
      rw [List.map_cons, List.flatten_cons, ← ih (by omega)]
      rfl
  cases halloc : allocate msgSize with
  | none => simp [enqueueMessage, halloc]
  | some capacity =>
    have hcapacity := hport _ _ halloc
    have hemit : (pieces.map Piece.checked).foldlM (Piece.emit partly capacity) [] =
        some (bytesOf (pieces.map Piece.checked)) :=
      emit_of_fits (by rw [List.nil_append, hbytes]; omega)
    rw [hbytes] at hemit
    simp [enqueueMessage, halloc, hemit]

end SpanPrimitives

/-- Its sizes are ones that the members of the message can have. -/
structure SpanStartMsg.Sized (msg : SpanStartMsg) : Prop where
  name : msg.name.length < 2 ^ 64
  attributes : ∀ attr ∈ msg.attributes.attributes, attr.value.Sized

/-- What a span message is on its way: it is written if there is a buffer for it, told apart
from what lies behind it, and passed over by the reader of a container. -/
structure Arrives (dp : SpanPrimitives) (deeppack : Sink.Deeppack) (msgSize : Nat)
    (pieces : List Bytes) (toInfo : Bytes → Sink.MessageInfo) : Prop where
  enqueued : ∀ partly allocate, (∀ n capacity, allocate n = some capacity → n ≤ capacity) →
    SpanPrimitives.enqueueMessage partly allocate msgSize pieces =
      (allocate msgSize).map fun _ => pieces.flatten
  preparsed : ∀ filler, deeppack.preparseMessage (pieces.flatten ++ filler) =
    (pieces.flatten.length, toInfo pieces.flatten)
  skipped : ∀ knownTypes registry, dp.WellFormed knownTypes (some registry) pieces.flatten ∧
    dp.isRecord pieces.flatten = false

namespace SpanPrimitives

variable (dp : SpanPrimitives) (deeppack : Sink.Deeppack)

/-- The attributes may take fewer bytes than have been measured. -/
theorem startPieces_length_le (msg : SpanStartMsg) :
    (dp.startPieces msg).flatten.length ≤ dp.sizeOfStart msg := by
  have hattributes := encodeAttributes_length_add dp.toItemPrimitives msg.attributes
  have hid := dp.encodeSpanContext_length msg.id
  have hparent := dp.encodeSpanContext_length msg.parent
  simp only [startPieces, sizeOfStart, List.flatten_cons, List.flatten_nil, List.length_append,
    List.length_nil, hid, hparent]
  omega

theorem endPieces_length (msg : SpanEndMsg) :
    (dp.endPieces msg).flatten.length = dp.sizeOfEnd msg := by
  have hid := dp.encodeSpanContext_length msg.id
  simp only [endPieces, sizeOfEnd, List.flatten_cons, List.flatten_nil, List.length_append,
    List.length_nil, hid]
  omega

theorem timestamp_item (timestamp : UInt64) :
    Cbor.Item (dp.emitInteger timestamp.toNat) := by
  have hlt := timestamp.toNat_lt
  exact emitInteger_item dp.toItemPrimitives (by omega) (by omega)

theorem startPieces_items {msg : SpanStartMsg} (h : msg.Sized) :
    ∃ items, Cbor.Items 7 items ∧ (dp.startPieces msg).flatten = dp.emitArray 7 ++ items := by
  obtain ⟨hname, hattributes⟩ := h
  have hkind : kindValue msg.kind < 5 := by cases msg.kind <;> decide
  have hkindItem := emitInteger_item dp.toItemPrimitives (n := kindValue msg.kind)
    (by omega) (by omega)
  have htimestamp := timestamp_item dp msg.timestamp
  have hlinks : Cbor.Item (dp.emitArray 0) := by
    have hempty := Cbor.item_array (by decide : 0 < 2 ^ 64) Cbor.Items.nil
    rwa [List.append_nil, ← dp.emitArray_eq 0 (by decide)] at hempty
  have hmap := encodeAttributes_mapItem dp.toItemPrimitives hattributes
  exact ⟨_, .cons (dp.spanContext_item msg.id) (.cons hkindItem (.cons (dp.spanContext_item _)
    (.cons htimestamp (.cons (dp.emitU8string_item _ hname) (.cons hlinks
      (.cons hmap.1 .nil)))))), rfl⟩

theorem endPieces_items (msg : SpanEndMsg) :
    ∃ items, Cbor.Items 2 items ∧ (dp.endPieces msg).flatten = dp.emitArray 2 ++ items :=
  ⟨_, .cons (dp.spanContext_item msg.id) (.cons (dp.timestamp_item msg.timestamp) .nil), rfl⟩

/-- A short array in front of anything is found by its head. -/
theorem beginsWith_array {n : Nat} (hn : n < 24) {items : Bytes} {body : Bytes → Prop}
    (hbody : body items) (filler : Bytes) :
    Sink.BeginsWith n body (dp.emitArray n ++ items ++ filler) (dp.emitArray n ++ items) := by
  have hhead : Cbor.readHead (Cbor.encodeHead 4 n) = some (⟨4, n, some n⟩, []) := by
    have hread := Cbor.readHead_short (by decide : 4 < 8) hn []
    simpa [Cbor.encodeHead, hn] using hread
  rw [dp.emitArray_eq n (by omega)]
  exact ⟨n, _, items, filler, hhead, hbody, rfl, rfl⟩

theorem startMsg_arrives {msg : SpanStartMsg} (h : msg.Sized) :
    Arrives dp deeppack (dp.sizeOfStart msg) (dp.startPieces msg) .spanStart := by
  obtain ⟨items, hitems, hbytes⟩ := dp.startPieces_items h
  refine ⟨fun _ _ hport => enqueueMessage_eq (dp.startPieces_length_le msg) hport,
    fun filler => ?_, fun knownTypes registry => ?_⟩
  · obtain ⟨hclassifies, hlength⟩ :=
      deeppack.preparseMessage_classifies ((dp.startPieces msg).flatten ++ filler)
    have hinfo := (hclassifies.spanStart_iff (dp.startPieces msg).flatten).mpr (by
      rw [hbytes]
      exact dp.beginsWith_array (by decide) hitems filler)
    rw [hinfo] at hlength
    exact Prod.ext hlength hinfo
  · rw [hbytes]
    exact Sink.span_wellFormed dp.toContainerPrimitives (.inl rfl) hitems

theorem endMsg_arrives (msg : SpanEndMsg) :
    Arrives dp deeppack (dp.sizeOfEnd msg) (dp.endPieces msg) .spanEnd := by
  obtain ⟨items, hitems, hbytes⟩ := dp.endPieces_items msg
  refine ⟨fun _ _ hport => enqueueMessage_eq (Nat.le_of_eq (dp.endPieces_length msg)) hport,
    fun filler => ?_, fun knownTypes registry => ?_⟩
  · obtain ⟨hclassifies, hlength⟩ :=
      deeppack.preparseMessage_classifies ((dp.endPieces msg).flatten ++ filler)
    have hinfo := (hclassifies.spanEnd_iff (dp.endPieces msg).flatten).mpr (by
      rw [hbytes]
      exact dp.beginsWith_array (by decide) hitems filler)
    rw [hinfo] at hlength
    exact Prod.ext hlength hinfo
  · rw [hbytes]
    exact Sink.span_wellFormed dp.toContainerPrimitives (.inr rfl) hitems

end SpanPrimitives

/-- A span message is written whenever there is a buffer for it, it is recognised and cut off from
what the bus has left behind it, and no container becomes unreadable by it; an end message takes
just the bytes that it has been measured with. The contexts in it can be read back. -/
theorem span_messages_arrive (dp : SpanPrimitives) (deeppack : Sink.Deeppack) :
    (∀ msg : SpanStartMsg, msg.Sized →
      (dp.startPieces msg).flatten.length ≤ dp.sizeOfStart msg ∧
        Arrives dp deeppack (dp.sizeOfStart msg) (dp.startPieces msg) .spanStart) ∧
    (∀ msg : SpanEndMsg, (dp.endPieces msg).flatten.length = dp.sizeOfEnd msg ∧
      Arrives dp deeppack (dp.sizeOfEnd msg) (dp.endPieces msg) .spanEnd) ∧
    ∀ spanCtx, (dp.encodeSpanContext spanCtx).length =
        SpanPrimitives.sizeOfSpanContext spanCtx ∧
      Reads dp.decodeSpanContext (dp.encodeSpanContext spanCtx) spanCtx :=
  ⟨fun msg h => ⟨dp.startPieces_length_le msg, dp.startMsg_arrives deeppack h⟩,
    fun msg => ⟨dp.endPieces_length msg, dp.endMsg_arrives deeppack msg⟩,
    fun spanCtx => ⟨dp.encodeSpanContext_length spanCtx, dp.reads_spanContext spanCtx⟩⟩

/-- A root span with a short domain id among its attributes. -/
def sampleStart : SpanStartMsg where
  id := ⟨.replicate 16 1, .replicate 8 2⟩
  kind := .server
  parent := .empty
  timestamp := 1000
  name := [0x67, 0x65, 0x74]
  attributes := codeAttributes 1

theorem span_messages_arrive_start :
    (plainSpans.startPieces sampleStart).flatten.length ≤ plainSpans.sizeOfStart sampleStart ∧
      Arrives plainSpans .ofCbor (plainSpans.sizeOfStart sampleStart)
        (plainSpans.startPieces sampleStart) .spanStart :=
  (span_messages_arrive plainSpans .ofCbor).1 sampleStart
    ⟨by decide, by simp [sampleStart, codeAttributes, Loggable.Sized]⟩

end Deeplog.Codec

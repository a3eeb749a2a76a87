import Deeplog.Codec.Vlog

/-!
# Reading records back

`basic_decoder<record>`, and what it makes of the messages of `vlog`.
-/

namespace Deeplog.Codec

open Cbor (Bytes)

/-- A record that has been decoded. -/
structure Record where
  severity : Nat
  instrumentationScope : Bytes
  context : SpanContext
  timestamp : Nat
  message : Bytes
  formatArguments : List (Option Bytes × Reified)
  attributes : List (Nat × Reified)

/-- The record that a decoder starts from. -/
def Record.blank : Record where
  severity := 0
  instrumentationScope := []
  context := .empty
  timestamp := 0
  message := []
  formatArguments := []
  attributes := []

namespace Primitives

variable (dp : Primitives)

/-- `codec<severity>::decode` -/
def decodeSeverity : Parse Nat := do
  let value ← dp.parseInteger 23
  pure (value + 1)

/-- The two ids, without the array around them that `codec<span_context>` has. -/
def decodeIds : Parse SpanContext := do
  let traceId ← dp.parseBinary 16
  let spanId ← dp.parseBinary 8
  pure { traceId, spanId }

def skipItems : Nat → Parse Unit
  | 0 => pure ()
  | n + 1 => do
    dp.skipItem
    skipItems n

/-- A part of the context that is there if its bit is set; otherwise the value stays. -/
def decodeIf {α : Type} (present : Bool) (decode : Parse α) (value : α) : Parse α :=
  if present then decode else pure value

/-- The properties of a record, behind the head of the tuple. -/
def decodeProperties (knownTypes : Nat → Option Kind) (registry : Option (Nat → Option Kind))
    (value : Record) : Parse Record := do
  let severity ← dp.decodeSeverity
  let contextHead ← dp.parseItemHead
  if contextHead.type ≠ .array ∨ 3 < contextHead.value then failure
  else do
    let instrumentationScope ←
      decodeIf (contextHead.value.testBit 0) dp.parseText value.instrumentationScope
    let context ← decodeIf (contextHead.value.testBit 1) dp.decodeIds value.context
    let timestamp ← dp.parseInteger (2 ^ 64 - 1)
    let message ← dp.parseText
    let formatArguments ← dp.decodeArguments knownTypes
    let attributes ← dp.decodeAttributes registry
    pure {
      severity := severity
      instrumentationScope := instrumentationScope
      context := context
      timestamp := timestamp
      message := message
      formatArguments := formatArguments
      attributes := attributes }

/-- `basic_decoder<record>::operator()`. Span messages are skipped. -/
def decodeRecord (knownTypes : Nat → Option Kind) (registry : Option (Nat → Option Kind))
    (value : Record) : Parse Record := do
  let tupleHead ← dp.parseItemHead
  if tupleHead.type ≠ .array then failure
  else if tupleHead.indefinite ∨
      (tupleHead.value ≠ 2 ∧ tupleHead.value ≠ 6 ∧ tupleHead.value ≠ 7) then failure
  else if tupleHead.value ≠ 6 then do
    dp.skipItems tupleHead.value
    pure { value with severity := 0 }
  else dp.decodeProperties knownTypes registry value

end Primitives

/-- The attributes of a location, by the ids of `attr::line` and `attr::file`. -/
def LogLocation.attributes (location : LogLocation) : List (Nat × Reified) :=
  (if location.hasLine then [(3, .uint64 location.line.toInt.toNat)] else []) ++
    (if location.hasFileName then [(2, .string location.file)] else [])

/-- The record is what has been logged. -/
structure Record.Tells (r : Record) (logCtx : LogContext) (args : LogArgs) (timeStamp : UInt64) :
    Prop where
  severity : r.severity = args.severity
  instrumentationScope : r.instrumentationScope = logCtx.instrumentationScope.getD []
  context : r.context = logCtx.span
  timestamp : r.timestamp = timeStamp.toNat
  message : r.message = args.message
  formatArguments : List.Forall₂ Loggable.Same args.arguments r.formatArguments
  attributes : r.attributes = args.location.attributes

/-- Whatever the port and the clock, a message that `vlog` has emitted is decoded to what has been
logged, to its end. -/
def RoundTrips (dp : Primitives) (logCtx : LogContext) (args : LogArgs) : Prop :=
  ∀ (partly : Bytes → Nat → Nat) (allocate : Nat → Option Nat) (timeStamp : UInt64)
    (knownTypes registry : Nat → Option Kind) (message : Bytes),
    (∀ n capacity, allocate n = some capacity → n ≤ capacity) →
    (∀ value ∈ args.arguments, knownTypes value.kind.id = some value.kind) →
    registry 2 = some .string → registry 3 = some .uint64 →
    vlog dp logCtx args partly allocate timeStamp = some (some message) →
    ∃ r, dp.decodeRecord knownTypes (some registry) .blank message = some (r, []) ∧
      r.Tells logCtx args timeStamp

namespace Primitives

variable (dp : Primitives) {knownTypes registry : Nat → Option Kind}

theorem decodeSeverity_byte {severity : Nat} (hpos : severity ≠ 0) (hle : severity ≤ 24)
    (rest : Bytes) :
    dp.decodeSeverity (UInt8.ofNat (severity - 1) :: rest) = some (severity, rest) := by
  rw [decodeSeverity,
    Parse.bind_of_eq (dp.parseInteger_byte 23 (severity - 1) rest (by omega) (by omega)),
    Nat.sub_add_cancel (by omega)]
  rfl

theorem decodeIf_scope {logCtx : LogContext} (hsize : (scopeBytes dp logCtx).length < 2 ^ 32)
    (rest : Bytes) :
    decodeIf ((contextBits logCtx).testBit 0) dp.parseText Record.blank.instrumentationScope
      (scopeBytes dp logCtx ++ rest) = some (logCtx.instrumentationScope.getD [], rest) := by
  cases hscope : logCtx.instrumentationScope with
  | none =>
    cases hspan : logCtx.hasOwnerSpan <;>
      simp [decodeIf, contextBits, scopeBytes, hscope, hspan, Nat.testBit, Record.blank]
  | some scope =>
    simp only [scopeBytes, hscope] at hsize
    have hbit : (contextBits logCtx).testBit 0 = true := by
      cases hspan : logCtx.hasOwnerSpan <;> simp [contextBits, hscope, hspan, Nat.testBit]
    rw [hbit]
    simp only [decodeIf, scopeBytes, hscope, if_true]
    exact dp.parseText_emit_of_lt hsize rest

/-- The context that a record has: its span, if that is written. -/
def ownerSpan (logCtx : LogContext) : SpanContext :=
  if logCtx.hasOwnerSpan then logCtx.span else .empty

theorem ownerSpan_eq {logCtx : LogContext}
    (hspan : logCtx.span = .empty ∨ logCtx.span.spanId ≠ SpanContext.empty.spanId) :
    ownerSpan logCtx = logCtx.span := by
  cases howner : logCtx.hasOwnerSpan with
  | true => simp [ownerSpan, howner]
  | false =>
    have hempty : logCtx.span = .empty := by
      refine hspan.resolve_right fun hvalid => ?_
      simp [LogContext.hasOwnerSpan, hvalid] at howner
    simp [ownerSpan, howner, hempty]

theorem decodeIf_ids (logCtx : LogContext) (rest : Bytes) :
    decodeIf ((contextBits logCtx).testBit 1) dp.decodeIds Record.blank.context
      ((if logCtx.hasOwnerSpan then
          dp.emitBinary logCtx.span.traceId.toList ++ dp.emitBinary logCtx.span.spanId.toList
        else []) ++ rest) = some (ownerSpan logCtx, rest) := by
  cases howner : logCtx.hasOwnerSpan with
  | false =>
    cases hscope : logCtx.instrumentationScope <;>
      simp [decodeIf, contextBits, ownerSpan, hscope, howner, Nat.testBit, Record.blank]
  | true =>
    have hbit : (contextBits logCtx).testBit 1 = true := by
      cases hscope : logCtx.instrumentationScope <;>
        simp [contextBits, hscope, howner, Nat.testBit]
    rw [hbit, ownerSpan, howner]
    simp only [decodeIf, if_true, List.append_assoc, decodeIds]
    rw [Parse.bind_of_eq (dp.parseBinary_emit 16 _ _ (by simp)),
      Parse.bind_of_eq (dp.parseBinary_emit 8 _ _ (by simp))]
    rfl

theorem decodeAttribute_of_revive {id : Nat} {kind : Kind} {bytes rest : Bytes}
    {reified : Reified} (hid : id < 2 ^ 64) (hknown : registry id = some kind)
    (h : dp.revive kind (bytes ++ rest) = some (reified, rest)) :
    dp.decodeAttribute registry (dp.emitInteger id ++ (bytes ++ rest)) =
      some ((id, reified), rest) := by
  rw [decodeAttribute, Parse.bind_of_eq (dp.parseInteger_emit _ _ _ (by omega) (by omega))]
  simp only [hknown]
  rw [Parse.bind_of_eq h]
  rfl

/-- The attributes as they are written, each with what a reader finds there. -/
def encodedAttributes (args : LogArgs) : List (Bytes × (Nat × Reified)) :=
  (if args.location.hasLine then
    [(dp.emitInteger (3 : Nat) ++ dp.emitInteger args.location.line.toInt,
      (3, .uint64 args.location.line.toInt.toNat))] else []) ++
  (if args.location.hasFileName then
    [(dp.emitInteger (2 : Nat) ++ dp.emitU8string args.location.file,
      (2, .string args.location.file))] else [])

theorem decodeAttribute_line (hline : registry 3 = some .uint64) {location : LogLocation}
    (hpresent : location.hasLine = true) (rest : Bytes) :
    dp.decodeAttribute registry
      (dp.emitInteger (3 : Nat) ++ (dp.emitInteger location.line.toInt ++ rest)) =
      some ((3, .uint64 location.line.toInt.toNat), rest) := by
  have hpos : 0 ≤ location.line.toInt := by simpa [LogLocation.hasLine] using hpresent
  have hlt := location.line.toInt_lt
  have hint := dp.parseInteger_emit (2 ^ 64 - 1) location.line.toInt.toNat rest
    (by omega) (by omega)
  rw [Int.toNat_of_nonneg hpos] at hint
  exact dp.decodeAttribute_of_revive (by simp) hline (Parse.bind_of_eq hint)

theorem decodeAttribute_file (hfile : registry 2 = some .string) {file : Bytes}
    (hsize : (dp.emitU8string file).length < 2 ^ 32) (rest : Bytes) :
    dp.decodeAttribute registry (dp.emitInteger (2 : Nat) ++ (dp.emitU8string file ++ rest)) =
      some ((2, .string file), rest) :=
  dp.decodeAttribute_of_revive (by simp) hfile
    (Parse.bind_of_eq (dp.parseText_emit_of_lt hsize rest))

theorem decodeAttribute_encode (hfile : registry 2 = some .string)
    (hline : registry 3 = some .uint64) {args : LogArgs}
    (hsize : args.location.hasFileName = true →
      (dp.emitU8string args.location.file).length < 2 ^ 32) :
    ∀ e ∈ dp.encodedAttributes args, ∀ rest, ∃ attr,
      dp.decodeAttribute registry (e.1 ++ rest) = some (attr, rest) ∧ e.2 = attr := by
  intro e he rest
  rcases List.mem_append.mp he with he | he
  · obtain ⟨hpresent, he⟩ := List.mem_ite_nil_right.mp he
    rw [List.mem_singleton.mp he]
    exact ⟨_, by rw [List.append_assoc]; exact dp.decodeAttribute_line hline hpresent rest, rfl⟩
  · obtain ⟨hpresent, he⟩ := List.mem_ite_nil_right.mp he
    rw [List.mem_singleton.mp he]
    exact ⟨_, by rw [List.append_assoc]
                 exact dp.decodeAttribute_file hfile (hsize hpresent) rest, rfl⟩

theorem length_encodedAttributes (args : LogArgs) :
    (dp.encodedAttributes args).length = numAttributes args := by
  cases hl : args.location.hasLine <;> cases hf : args.location.hasFileName <;>
    simp [encodedAttributes, numAttributes, hl, hf]

/-- `try_emplace` keeps both attributes: their ids differ. -/
theorem foldl_encodedAttributes (args : LogArgs) :
    ((dp.encodedAttributes args).map Prod.snd).foldl tryEmplace [] = args.location.attributes := by
  cases hl : args.location.hasLine <;> cases hf : args.location.hasFileName <;>
    simp [encodedAttributes, LogLocation.attributes, tryEmplace, hl, hf]

theorem flatMap_encodedAttributes (args : LogArgs) (rest : Bytes) :
    (dp.encodedAttributes args).flatMap Prod.fst ++ rest =
      (if args.location.hasLine then
          dp.emitInteger (3 : Nat) ++ dp.emitInteger args.location.line.toInt else []) ++
        ((if args.location.hasFileName then
          dp.emitInteger (2 : Nat) ++ dp.emitU8string args.location.file else []) ++ rest) := by
  cases hl : args.location.hasLine <;> cases hf : args.location.hasFileName <;>
    simp [encodedAttributes, hl, hf]

theorem decodeAttributes_encode (hfile : registry 2 = some .string)
    (hline : registry 3 = some .uint64) (args : LogArgs)
    (hsize : args.location.hasFileName = true →
      (dp.emitU8string args.location.file).length < 2 ^ 32) (rest : Bytes) :
    dp.decodeAttributes (some registry) (dp.emitMap (numAttributes args) ++
      ((if args.location.hasLine then
          dp.emitInteger (3 : Nat) ++ dp.emitInteger args.location.line.toInt else []) ++
        ((if args.location.hasFileName then
          dp.emitInteger (2 : Nat) ++ dp.emitU8string args.location.file else []) ++ rest))) =
      some (args.location.attributes, rest) := by
  obtain ⟨attrs, hattrs, hsame⟩ :=
    decodeItems_encode (dp.decodeAttribute_encode hfile hline hsize) rest
  have hattributes : attrs.foldl tryEmplace [] = args.location.attributes := by
    have hmap : (dp.encodedAttributes args).map Prod.snd = attrs :=
      List.forall₂_eq_eq_eq ▸ List.forall₂_map_left_iff.mpr hsame
    rw [← hmap, dp.foldl_encodedAttributes]
  have hnum := numAttributes_lt args
  simp only [decodeAttributes]
  rw [Parse.bind_of_eq (dp.parseFiniteHead_map _ _ (by omega)),
    ← dp.length_encodedAttributes, ← dp.flatMap_encodedAttributes,
    Parse.bind_of_eq hattrs, hattributes]
  rfl

/-- The bytes of the attributes. -/
def attributeBytes (args : LogArgs) : Bytes :=
  dp.emitMap (numAttributes args) ++
    ((if args.location.hasLine then
        dp.emitInteger (3 : Nat) ++ dp.emitInteger args.location.line.toInt else []) ++
      (if args.location.hasFileName then
        dp.emitInteger (2 : Nat) ++ dp.emitU8string args.location.file else []))

/-- A complete record is decoded up to its arguments. -/
theorem decodeRecord_front (knownTypes : Nat → Option Kind)
    (registry : Option (Nat → Option Kind)) {logCtx : LogContext} {args : LogArgs}
    (timeStamp : UInt64)
    (hpos : args.severity ≠ 0) (hle : args.severity ≤ 24)
    (hsize : totalSize dp logCtx args < 2 ^ 32) (rest : Bytes) :
    dp.decodeRecord knownTypes registry .blank (recordBytes dp logCtx args timeStamp ++ rest) =
      (do
        let formatArguments ← dp.decodeArguments knownTypes
        let attributes ← dp.decodeAttributes registry
        pure ⟨args.severity, logCtx.instrumentationScope.getD [], ownerSpan logCtx,
          timeStamp.toNat, args.message, formatArguments, attributes⟩ : Parse Record)
      (dp.emitArray args.arguments.length ++ (args.arguments.flatMap dp.encodeAnyLoggable ++
        (dp.attributeBytes args ++ rest))) := by
  have hlength := bytesOf_length_le dp logCtx args timeStamp
  rw [bytesOf_headPieces, bytesOf_tailPieces] at hlength
  simp only [List.length_append, List.length_cons] at hlength
  have htime := timeStamp.toNat_lt
  have hbits : contextBits logCtx ≤ 3 := by
    simp only [contextBits]
    split_ifs <;> simp
  rw [recordBytes, bytesOf_headPieces, bytesOf_tailPieces]
  simp only [List.append_assoc, List.cons_append]
  rw [decodeRecord, Parse.bind_of_eq (dp.parseItemHead_array 6 _ (by simp)), if_neg (by simp),
    if_neg (by simp), if_neg (by simp), decodeProperties,
    Parse.bind_of_eq (dp.decodeSeverity_byte hpos hle _),
    Parse.bind_of_eq (dp.parseItemHead_byte _ _ (by omega)), if_neg (by simpa using hbits),
    Parse.bind_of_eq (dp.decodeIf_scope (by omega) _),
    Parse.bind_of_eq (dp.decodeIf_ids logCtx _),
    Parse.bind_of_eq (dp.parseInteger_word _ _ _ htime (by omega)),
    Parse.bind_of_eq (dp.parseText_emit_of_lt (by omega) _)]
  simp only [attributeBytes, List.append_assoc]

/-- The arguments and the attributes come back. -/
theorem decodeRecord_complete {logCtx : LogContext} {args : LogArgs} (timeStamp : UInt64)
    (hpos : args.severity ≠ 0) (hle : args.severity ≤ 24)
    (hsize : totalSize dp logCtx args < 2 ^ 32)
    (hvalue : ∀ value ∈ args.arguments, value.NonNegative)
    (hknown : ∀ value ∈ args.arguments,
      dp.reviveKey knownTypes value.kind.id = dp.revive value.kind)
    (hfile : registry 2 = some .string) (hline : registry 3 = some .uint64) :
    ∃ formatArguments, List.Forall₂ Loggable.Same args.arguments formatArguments ∧
      dp.decodeRecord knownTypes (some registry) .blank (recordBytes dp logCtx args timeStamp) =
        some (⟨args.severity, logCtx.instrumentationScope.getD [], ownerSpan logCtx,
          timeStamp.toNat, args.message, formatArguments, args.location.attributes⟩, []) := by
  have hlength := bytesOf_length_le dp logCtx args timeStamp
  rw [bytesOf_headPieces, bytesOf_tailPieces] at hlength
  simp only [List.length_append, List.length_cons] at hlength
  obtain ⟨formatArguments, hargs, hsame⟩ :=
    dp.decodeArguments_encode hknown hvalue (by omega) (dp.attributeBytes args ++ [])
  have hfileSize : args.location.hasFileName = true →
      (dp.emitU8string args.location.file).length < 2 ^ 32 := by
    intro hpresent
    simp only [hpresent, if_true, List.length_append] at hlength
    omega
  have hattrs := dp.decodeAttributes_encode hfile hline args hfileSize []
  have hfront := dp.decodeRecord_front knownTypes (some registry) timeStamp hpos hle hsize []
  rw [List.append_nil (recordBytes dp logCtx args timeStamp)] at hfront
  refine ⟨formatArguments, hsame, ?_⟩
  rw [hfront, Parse.bind_of_eq hargs]
  simp only [attributeBytes, List.append_assoc]
  rw [Parse.bind_of_eq hattrs]
  rfl

/-- A complete record is decoded to its end, and tells what has been logged. -/
theorem decodeRecord_recordBytes {logCtx : LogContext} {args : LogArgs} (timeStamp : UInt64)
    (hpos : args.severity ≠ 0) (hle : args.severity ≤ 24)
    (hspan : logCtx.span = .empty ∨ logCtx.span.spanId ≠ SpanContext.empty.spanId)
    (hsize : totalSize dp logCtx args < 2 ^ 32)
    (hvalue : ∀ value ∈ args.arguments, value.NonNegative)
    (hknown : ∀ value ∈ args.arguments, knownTypes value.kind.id = some value.kind)
    (hfile : registry 2 = some .string) (hline : registry 3 = some .uint64) :
    ∃ r, dp.decodeRecord knownTypes (some registry) .blank
        (recordBytes dp logCtx args timeStamp) = some (r, []) ∧ r.Tells logCtx args timeStamp := by
  obtain ⟨formatArguments, hsame, hrecord⟩ := dp.decodeRecord_complete timeStamp hpos hle hsize
    hvalue (fun value hmem => dp.reviveKey_id (hknown value hmem)) hfile hline
  exact ⟨_, hrecord, rfl, rfl, ownerSpan_eq hspan, rfl, rfl, hsame, rfl⟩

end Primitives

/-- What comes back is not negative where it has been a system code. -/
theorem nonNegative_of_same {values : List Loggable} {args : List (Option Bytes × Reified)}
    (h : List.Forall₂ Loggable.Same values args) : ∀ value ∈ values, value.NonNegative := by
  induction h with
  | nil => simp
  | cons hvalue _ ih => simpa using ⟨hvalue.nonNegative, ih⟩

/-- Any record can be emitted, but only those without a negative value come back. -/
theorem RoundTrips.nonNegative {dp : Primitives} {logCtx : LogContext} {args : LogArgs}
    (h : RoundTrips dp logCtx args) (hpos : args.severity ≠ 0) (hle : args.severity ≤ 24) :
    ∀ value ∈ args.arguments, value.NonNegative := by
  let room := (recordBytes dp logCtx args 0).length
  have hvlog : vlog dp logCtx args (fun _ _ => 0) (fun n => some (max n room)) 0 =
      some (some (recordBytes dp logCtx args 0)) :=
    vlog_of_fits hpos hle rfl (Nat.le_max_right _ _)
  obtain ⟨r, -, htells⟩ := h _ _ _ Kind.ofId
    (fun id => if id = 2 then some .string else if id = 3 then some .uint64 else none) _
    (by rintro n capacity ⟨⟩; exact Nat.le_max_left _ _) (fun value _ => value.kind.ofId_id)
    rfl rfl hvlog
  exact nonNegative_of_same htells.formatArguments

/-- A record makes its way back exactly if none of its system codes has a negative value. -/
theorem roundTrips_iff (dp : Primitives) (logCtx : LogContext) (args : LogArgs)
    (hpos : args.severity ≠ 0) (hle : args.severity ≤ 24)
    (hspan : logCtx.span = .empty ∨ logCtx.span.spanId ≠ SpanContext.empty.spanId)
    (hsize : totalSize dp logCtx args < 2 ^ 32) :
    RoundTrips dp logCtx args ↔ ∀ value ∈ args.arguments, value.NonNegative := by
  refine ⟨fun h => h.nonNegative hpos hle, fun hvalue => ?_⟩
  intro partly allocate timeStamp knownTypes registry message hport hknown hfile hline h
  rw [message_of_vlog hsize hport h]
  exact dp.decodeRecord_recordBytes timeStamp hpos hle hspan hsize hvalue hknown hfile hline

/-- A context with a scope and a span. -/
def sampleContext : LogContext where
  instrumentationScope := some [0x6c, 0x69, 0x62]
  span := ⟨.replicate 16 1, .replicate 8 2⟩

/-- A warning about a system code. -/
def sampleArgs (value : Int64) : LogArgs where
  severity := 13
  message := [0x7b, 0x7d]
  arguments := [.uint64 7, .systemCode ⟨1, value, [0x6e, 0x74], [0x6e, 0x6f]⟩]
  location := ⟨[0x61, 0x2e, 0x63], 12, 3, by decide⟩

theorem roundTrips_iff_sample : RoundTrips .plain sampleContext (sampleArgs 5) ↔
    ∀ value ∈ (sampleArgs 5).arguments, value.NonNegative :=
  roundTrips_iff .plain sampleContext (sampleArgs 5) (by decide) (by decide) (by decide)
    (by decide)

/-- The value of a system code may be negative, but its reader is unsigned. -/
theorem roundTrips_not :
    ¬ ∀ (dp : Primitives) (logCtx : LogContext) (args : LogArgs), args.severity ≠ 0 →
      args.severity ≤ 24 →
      (logCtx.span = .empty ∨ logCtx.span.spanId ≠ SpanContext.empty.spanId) →
      RoundTrips dp logCtx args := by
  intro h
  have hroundTrips := h .plain sampleContext (sampleArgs (-5)) (by decide) (by decide) (by decide)
  have hvalue := hroundTrips.nonNegative (by decide) (by decide)
    (.systemCode ⟨1, -5, [0x6e, 0x74], [0x6e, 0x6f]⟩) (by simp [sampleArgs])
  exact absurd hvalue (by decide : ¬ (0 : Int) ≤ (-5 : Int64).toInt)

end Deeplog.Codec

import Deeplog.Codec.Reserve
import Deeplog.Codec.SpanMessages
import Deeplog.Sink.Fabric

/-!
# What sources send

Records and span messages, as `log` and the span scopes put them on a bus. What `vlog` has written
is not only what the decoder of records expects: it consists of the items that `preparse_messages`
skips, with the severity and the timestamp where it looks for them.
-/

namespace Deeplog.Codec

open Cbor (Bytes)

/-! ## The items of a record -/

section

variable (dp : SpanPrimitives) {logCtx : LogContext} {args : LogArgs} {timeStamp : UInt64}

theorem item_byte {k : Nat} (hk : k < 24) :
    Cbor.readInt [UInt8.ofNat k] = some ((k : Int), []) := by
  have hread := Cbor.readInt_encodeInt (n := k) (by omega) (by omega) []
  simpa [Cbor.encodeInt, Cbor.encodeHead, hk] using hread

theorem Kind.id_lt (kind : Kind) : kind.id < 24 := by
  cases kind <;> decide

theorem sized_of_length {value : Loggable} (h : (dp.encode value).length < 2 ^ 64) :
    value.Sized := by
  cases value with
  | string value =>
    have hlength := dp.emitU8string_length value
    simp only [Primitives.encode] at h
    exact Nat.lt_trans hlength h
  | systemCode code | statusCode code =>
    have hname := dp.emitU8string_length code.domainName
    have hmessage := dp.emitU8string_length code.message
    simp only [Primitives.encode, Primitives.encodeSystemCode, Primitives.encodeStatusCode,
      List.length_append] at h
    exact ⟨by omega, by omega⟩
  | _ => trivial

theorem encodeAnyLoggable_item {value : Loggable} (h : value.Sized) :
    Cbor.Item (dp.encodeAnyLoggable value) := by
  have hlt := value.kind.id_lt
  have hid := emitInteger_item dp.toItemPrimitives (n := value.kind.id) (by omega) (by omega)
  rw [Primitives.encodeAnyLoggable, dp.emitArray_eq 2 (by decide), List.append_assoc]
  exact Cbor.item_array (by decide) (.cons hid (item_single (encode_item dp.toItemPrimitives h)))

theorem arguments_items {values : List Loggable} (h : ∀ value ∈ values, value.Sized) :
    Cbor.Items values.length (values.flatMap dp.encodeAnyLoggable) := by
  induction values with
  | nil => exact .nil
  | cons value values ih =>
    obtain ⟨hvalue, hvalues⟩ := List.forall_mem_cons.mp h
    exact .cons (encodeAnyLoggable_item dp hvalue) (ih hvalues)

/-- The owner of a record is an array of as many items as its head has bits. -/
theorem owner_item (logCtx : LogContext)
    (hscope : (scopeBytes dp.toPrimitives logCtx).length < 2 ^ 64) :
    Cbor.Item (UInt8.ofNat (0x80 + contextBits logCtx) :: (scopeBytes dp.toPrimitives logCtx ++
      (if logCtx.hasOwnerSpan then
        dp.emitBinary logCtx.span.traceId.toList ++ dp.emitBinary logCtx.span.spanId.toList
      else []))) := by
  have htrace := dp.emitBinary_item logCtx.span.traceId.toList (by simp)
  have hspan := dp.emitBinary_item logCtx.span.spanId.toList (by simp)
  have hids : Cbor.Items (if logCtx.hasOwnerSpan then 2 else 0) (if logCtx.hasOwnerSpan then
      dp.emitBinary logCtx.span.traceId.toList ++ dp.emitBinary logCtx.span.spanId.toList
      else []) := by
    cases logCtx.hasOwnerSpan with
    | true => exact .cons htrace (item_single hspan)
    | false => exact .nil
  have hbits : contextBits logCtx < 24 := by
    rw [contextBits]
    split_ifs <;> decide
  have hhead : Cbor.encodeHead 4 (contextBits logCtx) =
      [UInt8.ofNat (0x80 + contextBits logCtx)] := by
    rw [Cbor.encodeHead, if_pos hbits]
  have hitems : Cbor.Items (contextBits logCtx) (scopeBytes dp.toPrimitives logCtx ++
      (if logCtx.hasOwnerSpan then
        dp.emitBinary logCtx.span.traceId.toList ++ dp.emitBinary logCtx.span.spanId.toList
      else [])) := by
    rw [contextBits]
    cases hdata : logCtx.instrumentationScope with
    | none =>
      simpa [scopeBytes, hdata] using hids
    | some scope =>
      simp only [scopeBytes, hdata] at hscope ⊢
      have hlength := dp.emitU8string_length scope
      have hitem := item_single (dp.emitU8string_item scope (by omega))
      simpa using hitem.append hids
  have hitem := Cbor.item_array (by omega) hitems
  rwa [hhead] at hitem

theorem attributes_item (hsize : args.location.hasFileName = true →
    args.location.file.length < 2 ^ 64) : Cbor.Item (dp.attributeBytes args) := by
  have hline : Cbor.Items (if args.location.hasLine then 2 else 0) (if args.location.hasLine then
      dp.emitInteger (3 : Nat) ++ dp.emitInteger args.location.line.toInt else []) := by
    have hlow := args.location.line.le_toInt
    have hhigh := args.location.line.toInt_lt
    have hid := emitInteger_item dp.toItemPrimitives (n := (3 : Nat)) (by decide) (by decide)
    have hvalue := emitInteger_item dp.toItemPrimitives (n := args.location.line.toInt)
      (by omega) (by omega)
    cases args.location.hasLine with
    | true => exact .cons hid (item_single hvalue)
    | false => exact .nil
  have hfile : Cbor.Items (if args.location.hasFileName then 2 else 0)
      (if args.location.hasFileName then
        dp.emitInteger (2 : Nat) ++ dp.emitU8string args.location.file else []) := by
    have hid := emitInteger_item dp.toItemPrimitives (n := (2 : Nat)) (by decide) (by decide)
    cases hname : args.location.hasFileName with
    | true => exact .cons hid (item_single (dp.emitU8string_item _ (hsize hname)))
    | false => exact .nil
  have hnumber : 2 * numAttributes args = (if args.location.hasLine then 2 else 0) +
      (if args.location.hasFileName then 2 else 0) := by
    rw [numAttributes]
    cases args.location.hasLine <;> cases args.location.hasFileName <;> rfl
  have hlt := numAttributes_lt args
  rw [Primitives.attributeBytes, dp.emitMap_eq _ (by omega)]
  exact (Cbor.mapItem_map (by omega) (hnumber ▸ hline.append hfile)).1

/-- A record is an array of the six items that `preparse_record` reads. -/
theorem recordBytes_items (hpos : args.severity ≠ 0) (hle : args.severity ≤ 24)
    (hsize : totalSize dp.toPrimitives logCtx args < 2 ^ 32) :
    ∃ items, Sink.RecordItems timeStamp.toNat args.severity items ∧
      recordBytes dp.toPrimitives logCtx args timeStamp = dp.emitArray 6 ++ items := by
  have hlength := bytesOf_length_le dp.toPrimitives logCtx args timeStamp
  rw [bytesOf_headPieces, bytesOf_tailPieces] at hlength
  simp only [List.length_append, List.length_cons] at hlength
  have harguments := dp.length_le_arguments args.arguments
  have hsized : ∀ value ∈ args.arguments, value.Sized := fun value hmem => by
    have hle := dp.encodeAnyLoggable_length_le_arguments hmem
    simp only [Primitives.encodeAnyLoggable, List.length_append] at hle
    exact sized_of_length dp (by omega)
  have hfile : args.location.hasFileName = true → args.location.file.length < 2 ^ 64 := by
    intro hname
    have hfile := dp.emitU8string_length args.location.file
    simp only [hname, if_true, List.length_append] at hlength
    omega
  have hmessage := dp.emitU8string_length args.message
  have hothers : Cbor.Items 3 (dp.emitU8string args.message ++
      ((dp.emitArray args.arguments.length ++ args.arguments.flatMap dp.encodeAnyLoggable) ++
        dp.attributeBytes args)) := by
    refine .cons (dp.emitU8string_item _ (by omega)) (.cons ?_
      (item_single (attributes_item dp hfile)))
    rw [dp.emitArray_eq _ (by omega)]
    exact Cbor.item_array (by omega) (arguments_items dp hsized)
  have howner := owner_item dp logCtx (by omega)
  have hseverity := item_byte (show args.severity - 1 < 24 by omega)
  have htimestamp : Cbor.readInt (27 :: (Cbor.toBigEndian 8 timeStamp.toNat ++ [])) =
      some ((timeStamp.toNat : Int), []) := Cbor.readInt_word timeStamp.toNat_lt []
  rw [List.append_nil] at htimestamp
  refine ⟨_, ⟨[UInt8.ofNat (args.severity - 1)], _, 27 :: Cbor.toBigEndian 8 timeStamp.toNat, _,
    rfl, ⟨_, hseverity, by omega, by omega⟩, howner, ⟨htimestamp, timeStamp.toNat_lt⟩, hothers⟩, ?_⟩
  rw [recordBytes, bytesOf_headPieces, bytesOf_tailPieces, Primitives.attributeBytes]
  simp

end

/-! ## Messages -/

/-- What a source has for a bus. -/
inductive Sent where
  | record (logCtx : LogContext) (args : LogArgs) (timeStamp : UInt64)
  | spanStart (msg : SpanStartMsg)
  | spanEnd (msg : SpanEndMsg)

/-- A record that `vlog` emits as a whole, and that its reader can make something of. -/
structure Recordable (dp : Primitives) (knownTypes : Nat → Option Kind) (logCtx : LogContext)
    (args : LogArgs) : Prop where
  severity : args.severity ≠ 0 ∧ args.severity ≤ 24
  scope : logCtx.HasEmptyScope → ∃ value ∈ args.arguments, value.ShortDomain dp
  span : logCtx.span = .empty ∨ logCtx.span.spanId ≠ SpanContext.empty.spanId
  size : totalSize dp logCtx args < 2 ^ 32
  nonNegative : ∀ value ∈ args.arguments, value.NonNegative
  known : ∀ value ∈ args.arguments, knownTypes value.kind.id = some value.kind

namespace Sent

section

variable (dp : SpanPrimitives)

/-- The size that the bus is asked for. -/
def msgSize : Sent → Nat
  | .record logCtx args _ => encodedSize dp.toPrimitives logCtx args
  | .spanStart msg => dp.sizeOfStart msg
  | .spanEnd msg => dp.sizeOfEnd msg

def pieces : Sent → List Piece
  | .record logCtx args timeStamp =>
    headPieces dp.toPrimitives logCtx args timeStamp ++ tailPieces dp.toPrimitives args
  | .spanStart msg => (dp.startPieces msg).map .checked
  | .spanEnd msg => (dp.endPieces msg).map .checked

def bytes (m : Sent) : Bytes := bytesOf (m.pieces dp)

/-- What a message is for a fabric. -/
def info : Sent → Sink.MessageInfo
  | .record logCtx args timeStamp =>
    .record (recordBytes dp.toPrimitives logCtx args timeStamp) timeStamp.toNat args.severity
  | .spanStart msg => .spanStart (dp.startPieces msg).flatten
  | .spanEnd msg => .spanEnd (dp.endPieces msg).flatten

/-- What there is to be told of a message. -/
def toRecord : Sent → Option (LogContext × LogArgs × UInt64)
  | .record logCtx args timeStamp => some (logCtx, args, timeStamp)
  | .spanStart _ | .spanEnd _ => none

def Valid (knownTypes : Nat → Option Kind) : Sent → Prop
  | .record logCtx args _ => Recordable dp.toPrimitives knownTypes logCtx args
  | .spanStart msg => msg.Sized ∧ dp.sizeOfStart msg < 2 ^ 63
  | .spanEnd _ => True

end

variable {dp : SpanPrimitives} {knownTypes registry : Nat → Option Kind} {m : Sent}

theorem bytes_record (logCtx : LogContext) (args : LogArgs) (timeStamp : UInt64) :
    (record logCtx args timeStamp).bytes dp =
      recordBytes dp.toPrimitives logCtx args timeStamp :=
  bytesOf_append ..

theorem bytesOf_checked (pieces : List Bytes) :
    bytesOf (pieces.map Piece.checked) = pieces.flatten := by
  simp [bytesOf, List.flatMap_map, Piece.bytes, List.flatMap_id']

theorem info_rawData : (m.info dp).rawData = m.bytes dp := by
  cases m with
  | record logCtx args timeStamp => exact (bytes_record ..).symm
  | spanStart msg | spanEnd msg => exact (bytesOf_checked _).symm

/-- The bus is asked for enough. -/
theorem Valid.fits (h : m.Valid dp knownTypes) :
    (m.bytes dp).length ≤ m.msgSize dp ∧ m.msgSize dp < 2 ^ 63 := by
  cases m with
  | record logCtx args timeStamp =>
    have hfits := (recordBytes_length_le_iff dp.toPrimitives logCtx args timeStamp).mpr h.scope
    have hsize := h.size
    rw [bytes_record, msgSize, encodedSize, Nat.mod_eq_of_lt hsize]
    omega
  | spanStart msg =>
    have hfits := dp.startPieces_length_le msg
    rw [bytes, pieces, bytesOf_checked]
    exact ⟨hfits, h.2⟩
  | spanEnd msg =>
    have hlength := dp.endPieces_length msg
    have harray := dp.emitArray_small 2 (by decide)
    have htimestamp := dp.emitInteger_length msg.timestamp.toNat
    have hid : SpanPrimitives.sizeOfSpanContext msg.id ≤ 27 := by
      rw [SpanPrimitives.sizeOfSpanContext]
      split <;> omega
    rw [bytes, pieces, bytesOf_checked, msgSize]
    refine ⟨Nat.le_of_eq hlength, ?_⟩
    rw [SpanPrimitives.sizeOfEnd]
    omega

/-- A message is told apart from what the bus has left behind it. -/
theorem Valid.preparsed (h : m.Valid dp knownTypes) (deeppack : Sink.Deeppack) (filler : Bytes) :
    (deeppack.preparseMessage (m.bytes dp ++ filler)).2 = m.info dp := by
  cases m with
  | record logCtx args timeStamp =>
    obtain ⟨items, hitems, hbytes⟩ :=
      recordBytes_items dp h.severity.1 h.severity.2 h.size
    apply ((deeppack.preparseMessage_classifies _).1.record_iff ..).mpr
    rw [bytes_record, hbytes]
    exact dp.beginsWith_array (by decide) hitems filler
  | spanStart msg =>
    have harrives := dp.startMsg_arrives deeppack h.1
    rw [bytes, pieces, bytesOf_checked, harrives.preparsed]
    rfl
  | spanEnd msg =>
    have harrives := dp.endMsg_arrives deeppack msg
    rw [bytes, pieces, bytesOf_checked, harrives.preparsed]
    rfl

/-- The reader of a container takes a message, and what it makes of it is what there is to be
told. -/
theorem Valid.decoded (h : m.Valid dp knownTypes) (hfile : registry 2 = some .string)
    (hline : registry 3 = some .uint64) :
    dp.WellFormed knownTypes (some registry) (m.bytes dp) ∧
      dp.isRecord (m.bytes dp) = m.toRecord.isSome ∧
      ∀ logCtx args timeStamp, m.toRecord = some (logCtx, args, timeStamp) → ∃ r,
        dp.recordOf knownTypes (some registry) (m.bytes dp) = some r ∧
        r.Tells logCtx args timeStamp := by
  cases m with
  | record logCtx args timeStamp =>
    obtain ⟨r, hr, htells⟩ := dp.decodeRecord_recordBytes timeStamp h.severity.1 h.severity.2
      h.span h.size h.nonNegative h.known hfile hline
    obtain ⟨items, -, hbytes⟩ :=
      recordBytes_items dp h.severity.1 h.severity.2 h.size
    rw [bytes_record]
    refine ⟨⟨r, hr⟩, ?_, ?_⟩
    · rw [ContainerPrimitives.isRecord, hbytes, dp.parseItemHead_array 6 _ (by decide)]
      rfl
    · rintro _ _ _ ⟨⟩
      exact ⟨r, by rw [ContainerPrimitives.recordOf, hr]; rfl, htells⟩
  | spanStart msg =>
    have hskipped := (dp.startMsg_arrives .ofCbor h.1).skipped knownTypes registry
    rw [bytes, pieces, bytesOf_checked]
    exact ⟨hskipped.1, hskipped.2, fun _ _ _ hrecord => by cases hrecord⟩
  | spanEnd msg =>
    have hskipped := (dp.endMsg_arrives .ofCbor msg).skipped knownTypes registry
    rw [bytes, pieces, bytesOf_checked]
    exact ⟨hskipped.1, hskipped.2, fun _ _ _ hrecord => by cases hrecord⟩

/-! ## Messages in a container -/

/-- A threshold keeps back records, but no spans. -/
def passes (threshold : Nat) : Sent → Bool
  | .record _ args _ => threshold ≤ args.severity
  | .spanStart _ | .spanEnd _ => true

theorem passed_infos (threshold : Nat) (messages : List Sent) :
    Sink.passed threshold (messages.map (info dp)) =
      ((messages.filter (passes threshold)).map (bytes dp)).flatten := by
  induction messages with
  | nil => rfl
  | cons m messages ih =>
    have hbelow : (!(m.info dp).below threshold) = m.passes threshold := by
      cases m with
      | record logCtx args timeStamp =>
        grind [info, Sink.MessageInfo.below, passes]
      | spanStart msg | spanEnd msg => rfl
    rw [Sink.passed, List.map_cons, List.filter_cons, List.filter_cons, hbelow]
    split
    · rw [List.flatMap_cons, List.map_cons, List.flatten_cons, info_rawData, ← ih]
      rfl
    · exact ih

/-- The records that a list of messages leads to. -/
theorem forall₂_tells {messages : List Sent} {records : List Record}
    (h : ∀ m ∈ messages, m.Valid dp knownTypes) (hfile : registry 2 = some .string)
    (hline : registry 3 = some .uint64) (hrecords : records.map some =
      ((messages.map (bytes dp)).filter dp.isRecord).map (dp.recordOf knownTypes (some registry))) :
    List.Forall₂ (fun sent (r : Record) => r.Tells sent.1 sent.2.1 sent.2.2)
      (messages.filterMap toRecord) records := by
  induction messages generalizing records with
  | nil =>
    obtain rfl := List.map_eq_nil_iff.mp hrecords
    exact .nil
  | cons m messages ih =>
    obtain ⟨hm, hmessages⟩ := List.forall_mem_cons.mp h
    obtain ⟨-, hrecord, htells⟩ := hm.decoded hfile hline
    rw [List.map_cons, List.filter_cons, hrecord] at hrecords
    cases hsome : m.toRecord with
    | none =>
      rw [hsome] at hrecords
      rw [List.filterMap_cons_none hsome]
      exact ih hmessages hrecords
    | some sent =>
      obtain ⟨logCtx, args, timeStamp⟩ := sent
      obtain ⟨r, hr, htells⟩ := htells _ _ _ hsome
      rw [hsome, Option.isSome_some, if_pos rfl, List.map_cons, hr] at hrecords
      obtain ⟨r', records, rfl, heq, hrest⟩ := List.map_eq_cons_iff.mp hrecords
      cases heq
      rw [List.filterMap_cons_some hsome]
      exact .cons htells (ih hmessages hrest)

end Sent

end Deeplog.Codec

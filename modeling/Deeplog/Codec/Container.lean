import Deeplog.Codec.Decoder
import Deeplog.Sink.FileSink

/-!
# Reading record containers

`basic_decoder<record_container>` over the header, the records and the break that a file sink
writes, and the attributes of a container as `cbor_attribute_map` has encoded them. Span messages
are decoded as records without severity, and dropped at the end.
-/

namespace Deeplog.Codec

open Cbor (Bytes)

/-! ## Parsers of streams -/

/-- More input does not change what a parser takes. -/
def Streams {α : Type} (p : Parse α) : Prop :=
  ∀ bs a rest more, p bs = some (a, rest) → p (bs ++ more) = some (a, rest ++ more)

section

variable {α β : Type} {p : Parse α} {q : α → Parse β} {bs : Bytes} {a : α}

theorem Streams.of_local (h : Cbor.Reader.Local p) : Streams p :=
  fun _ _ _ more hp => h.append hp more

theorem Streams.pure (a : α) : Streams (pure a) := by
  rintro bs _ _ more ⟨⟩
  rfl

theorem Streams.failure : Streams (failure : Parse α) := nofun

theorem Streams.bind (hp : Streams p) (hq : ∀ a, Streams (q a)) : Streams (p >>= q) := by
  intro bs b rest more h
  obtain ⟨⟨a, mid⟩, hfirst, hsecond⟩ := Option.bind_eq_some_iff.mp h
  rw [Parse.bind_of_eq (hp bs a mid more hfirst)]
  exact hq a mid b rest more hsecond

theorem Streams.map {f : α → β} (hp : Streams p) : Streams (f <$> p) := by
  intro bs b rest more h
  obtain ⟨⟨a, mid⟩, hfirst, hsecond⟩ := Option.bind_eq_some_iff.mp h
  cases hsecond
  exact Option.bind_eq_some_iff.mpr ⟨(a, rest ++ more), hp bs a rest more hfirst, rfl⟩

theorem Streams.ite {c : Prop} [Decidable c] {p q : Parse α} (hp : Streams p) (hq : Streams q) :
    Streams (if c then p else q) := by
  split
  · exact hp
  · exact hq

/-- What a parser takes to its end is taken in front of anything. -/
theorem Streams.reads (hp : Streams p) (h : p bs = some (a, [])) : Reads p bs a :=
  fun rest => hp bs a [] rest h

end

/-- The further parts of deeppack that the decoder of containers relies on. -/
structure ContainerPrimitives extends Primitives where
  decodeObject : {α β : Type} → (version id₁ id₂ : Nat) → Parse α → Parse β → Parse (α × β)
  parseArray : {α : Type} → Parse α → Parse (List α)
  decodeObject_emit : ∀ {α β : Type} (version id₁ id₂ : Nat) (p : Parse α) (q : Parse β) x y a b,
    version < 2 ^ 32 → id₁ < 2 ^ 32 → id₂ < 2 ^ 32 → Reads p x a → Reads q y b →
    Reads (decodeObject version id₁ id₂ p q)
      (emitMap 3 ++ (emitInteger 0 ++ (emitInteger version ++ (emitInteger id₁ ++ (x ++
        (emitInteger id₂ ++ (y ++ []))))))) (a, b)
  parseArray_indefinite : ∀ {α : Type} (item : Parse α) (entries : List (Bytes × α)),
    (∀ e ∈ entries, e.1 ≠ [] ∧ e.1.head? ≠ some 0xff ∧ Reads item e.1 e.2) →
    Reads (parseArray item) (0x9f :: (entries.flatMap Prod.fst ++ [0xff])) (entries.map Prod.snd)
  parseArray_failure : ∀ {α : Type} (item : Parse α) (entries : List (Bytes × α)) (rest : Bytes),
    (∀ e ∈ entries, e.1 ≠ [] ∧ e.1.head? ≠ some 0xff ∧ Reads item e.1 e.2) →
    rest.head? ≠ some 0xff → item rest = none →
    parseArray item (0x9f :: (entries.flatMap Prod.fst ++ rest)) = none
  parseItemHead_nil : parseItemHead [] = none
  parseItemHead_break : ∀ rest head rest', parseItemHead (0xff :: rest) = some (head, rest') →
    head.type ≠ .array
  emitInteger_eq : ∀ n, -2 ^ 63 ≤ n → n < 2 ^ 64 → emitInteger n = Cbor.encodeInt n
  emitArray_eq : ∀ n < 2 ^ 64, emitArray n = Cbor.encodeHead 4 n
  emitMap_eq : ∀ n < 2 ^ 64, emitMap n = Cbor.encodeHead 5 n
  parseItemHead_streams : Streams parseItemHead
  expectItemHead_streams : ∀ type n, Streams (expectItemHead type n)
  parseFiniteHead_streams : ∀ type, Streams (parseFiniteHead type)
  parseInteger_streams : ∀ max, Streams (parseInteger max)
  parseSigned_streams : Streams parseSigned
  parseText_streams : Streams parseText
  parseBinary_streams : ∀ n, Streams (parseBinary n)
  decodeFloat_streams : Streams decodeFloat
  decodeDouble_streams : Streams decodeDouble
  decodeBool_streams : Streams decodeBool
  skipItem_streams : Streams skipItem

/-! ## The attributes of a container -/

structure Attribute where
  id : UInt64
  value : Loggable

/-- `attribute_args`, whose number is kept in an `uint_least16_t`. -/
structure AttributeArgs where
  attributes : List Attribute
  length_le : attributes.length ≤ 65535

namespace Primitives

variable (dp : Primitives)

/-- `encode_any_attribute` -/
def encodeAnyAttribute (attr : Attribute) : Bytes :=
  dp.emitInteger attr.id.toNat ++ dp.encode attr.value

/-- `codec<attribute_args>::encode` -/
def encodeAttributes (attrs : AttributeArgs) : Bytes :=
  dp.emitMap attrs.attributes.length ++ attrs.attributes.flatMap dp.encodeAnyAttribute

/-- `codec<attribute_args>::size_of` -/
def sizeOfAttributes (attrs : AttributeArgs) : Nat :=
  (dp.emitMap attrs.attributes.length).length +
    (attrs.attributes.map fun attr =>
      (dp.emitInteger attr.id.toNat).length + dp.encodedSizeOf attr.value).sum

/-- `cbor_attribute_map::insert_attributes`, which encodes into a vector that has been resized
before. -/
def insertAttributes (attrs : AttributeArgs) : Bytes :=
  let encoded := dp.encodeAttributes attrs
  encoded ++ List.replicate (dp.sizeOfAttributes attrs - encoded.length) 0

end Primitives

/-! ## The decoder -/

structure RecordContainer where
  epoch : Sink.Epoch
  attributes : List (Nat × Reified)
  records : List Record

def parseMagic : Parse Unit := fun bs =>
  if bs.take Sink.magic.length = Sink.magic then some ((), bs.drop Sink.magic.length) else none

namespace ContainerPrimitives

variable (dp : ContainerPrimitives)

/-- `codec<log_clock::epoch_info>::decode` -/
def decodeEpoch : Parse Sink.Epoch := do
  dp.expectItemHead .array 2
  let systemReference ← dp.parseSigned
  let steadyReference ← dp.parseSigned
  pure { systemReference, steadyReference }

/-- `record_resource` by its `layout_descriptor`. -/
def decodeResource (registry : Option (Nat → Option Kind)) :
    Parse (Sink.Epoch × List (Nat × Reified)) :=
  dp.decodeObject 0 4 23 dp.decodeEpoch (dp.decodeAttributes registry)

/-- `basic_decoder<record_container>::operator()` -/
def decodeContainer (knownTypes : Nat → Option Kind) (registry : Option (Nat → Option Kind)) :
    Parse RecordContainer := do
  parseMagic
  let info ← dp.decodeResource registry
  let records ← dp.parseArray (dp.decodeRecord knownTypes registry .blank)
  pure ⟨info.1, info.2, records.filter (·.severity ≠ 0)⟩

/-- A message that `basic_decoder<record>` accepts; it accepts spans as well. -/
def WellFormed (knownTypes : Nat → Option Kind) (registry : Option (Nat → Option Kind))
    (message : Bytes) : Prop :=
  ∃ record, dp.decodeRecord knownTypes registry .blank message = some (record, [])

/-- A message that is no span. -/
def isRecord (message : Bytes) : Bool :=
  (dp.parseItemHead message).any fun head => head.1.value = 6

def recordOf (knownTypes : Nat → Option Kind) (registry : Option (Nat → Option Kind))
    (message : Bytes) : Option Record :=
  (dp.decodeRecord knownTypes registry .blank message).map Prod.fst

/-! ## Messages in a stream -/

section

variable {dp : ContainerPrimitives} {knownTypes : Nat → Option Kind}
  {registry : Option (Nat → Option Kind)}

theorem skipItems_streams (dp : ContainerPrimitives) (n : Nat) : Streams (dp.skipItems n) := by
  induction n with
  | zero => exact .pure _
  | succ n ih => exact dp.skipItem_streams.bind fun _ => ih

theorem revive_streams (dp : ContainerPrimitives) (kind : Kind) : Streams (dp.revive kind) := by
  have htext := dp.parseText_streams
  have hinteger := dp.parseInteger_streams (2 ^ 64 - 1)
  cases kind with
  | uint64 => exact hinteger.bind fun _ => .pure _
  | int64 => exact dp.parseSigned_streams.bind fun _ => .pure _
  | floatSingle => exact dp.decodeFloat_streams.bind fun _ => .pure _
  | floatDouble => exact dp.decodeDouble_streams.bind fun _ => .pure _
  | boolean => exact dp.decodeBool_streams.bind fun _ => .pure _
  | string => exact htext.bind fun _ => .pure _
  | systemCode =>
    refine Streams.bind ?_ fun _ => .pure _
    exact (dp.expectItemHead_streams _ _).bind fun _ => hinteger.bind fun _ =>
      hinteger.bind fun _ => htext.bind fun _ => htext.bind fun _ => .pure _
  | statusCode =>
    refine Streams.bind ?_ fun _ => .pure _
    exact (dp.expectItemHead_streams _ _).bind fun _ => hinteger.bind fun _ =>
      htext.bind fun _ => htext.bind fun _ => .pure _

theorem decodeItems_streams {α : Type} {item : Parse α} (h : Streams item) (n : Nat) :
    Streams (Primitives.decodeItems item n) := by
  induction n with
  | zero => exact .pure _
  | succ n ih => exact h.bind fun _ => ih.bind fun _ => .pure _

theorem decodeArg_streams : Streams (dp.decodeArg knownTypes) := by
  refine dp.parseItemHead_streams.bind fun tupleHead =>
    .ite .failure (.ite .failure (.ite .failure ?_))
  refine (dp.parseInteger_streams _).bind fun key => Streams.bind ?_ fun name =>
    Streams.bind ?_ fun _ => .pure _
  · exact .ite dp.parseText_streams.map (.pure _)
  · refine .ite (revive_streams dp _) (.ite (revive_streams dp _) ?_)
    cases knownTypes key with
    | none => exact .failure
    | some kind => exact revive_streams dp kind

theorem decodeArguments_streams : Streams (dp.decodeArguments knownTypes) :=
  (dp.parseFiniteHead_streams _).bind fun n => decodeItems_streams decodeArg_streams n

theorem decodeAttributes_streams : Streams (dp.decodeAttributes registry) := by
  cases registry with
  | none => exact (dp.expectItemHead_streams _ _).bind fun _ => .pure _
  | some registry =>
    refine (dp.parseFiniteHead_streams _).bind fun n =>
      (decodeItems_streams ?_ n).bind fun _ => .pure _
    refine (dp.parseInteger_streams _).bind fun key => ?_
    cases registry key with
    | none => exact .failure
    | some kind => exact (revive_streams dp kind).bind fun _ => .pure _

theorem decodeProperties_streams (value : Record) :
    Streams (dp.decodeProperties knownTypes registry value) := by
  have hseverity : Streams dp.decodeSeverity := (dp.parseInteger_streams _).bind fun _ => .pure _
  have hids : Streams dp.decodeIds :=
    (dp.parseBinary_streams _).bind fun _ => (dp.parseBinary_streams _).bind fun _ => .pure _
  refine hseverity.bind fun severity => dp.parseItemHead_streams.bind fun head => .ite .failure ?_
  exact (Streams.ite dp.parseText_streams (.pure _)).bind fun _ => (Streams.ite hids (.pure _)).bind
    fun _ => (dp.parseInteger_streams _).bind fun _ => dp.parseText_streams.bind fun _ =>
    decodeArguments_streams.bind fun _ => decodeAttributes_streams.bind fun _ => .pure _

theorem decodeRecord_streams (value : Record) :
    Streams (dp.decodeRecord knownTypes registry value) := by
  refine dp.parseItemHead_streams.bind fun head => .ite .failure (.ite .failure (.ite ?_ ?_))
  · exact (skipItems_streams dp _).bind fun _ => .pure _
  · exact decodeProperties_streams value

/-- What is decoded begins with the head of an array. -/
theorem decodeRecord_head {value record : Record} {bs rest : Bytes}
    (h : dp.decodeRecord knownTypes registry value bs = some (record, rest)) :
    ∃ tupleHead body, dp.parseItemHead bs = some (tupleHead, body) ∧ tupleHead.type = .array ∧
      (if tupleHead.value ≠ 6 then record.severity = 0 else record.severity ≠ 0) := by
  obtain ⟨⟨tupleHead, body⟩, hhead, h⟩ := Option.bind_eq_some_iff.mp h
  refine ⟨tupleHead, body, hhead, ?_⟩
  dsimp only at h
  split at h
  · cases h
  case isFalse htype =>
    refine ⟨not_not.mp htype, ?_⟩
    split at h
    · cases h
    · split at h
      case isTrue hspan =>
        obtain ⟨⟨⟨⟩, mid⟩, -, h⟩ := Option.bind_eq_some_iff.mp h
        cases h
        rw [if_pos hspan]
      case isFalse hrecord =>
        rw [if_neg hrecord]
        obtain ⟨⟨severity, mid⟩, hseverity, h⟩ := Option.bind_eq_some_iff.mp h
        obtain ⟨⟨number, mid'⟩, -, hnumber⟩ := Option.bind_eq_some_iff.mp hseverity
        have hpos : severity = number + 1 := by cases hnumber; rfl
        obtain ⟨⟨contextHead, mid₁⟩, -, h⟩ := Option.bind_eq_some_iff.mp h
        dsimp only at h
        split at h
        · cases h
        · obtain ⟨_, -, h⟩ := Option.bind_eq_some_iff.mp h
          obtain ⟨_, -, h⟩ := Option.bind_eq_some_iff.mp h
          obtain ⟨_, -, h⟩ := Option.bind_eq_some_iff.mp h
          obtain ⟨_, -, h⟩ := Option.bind_eq_some_iff.mp h
          obtain ⟨_, -, h⟩ := Option.bind_eq_some_iff.mp h
          obtain ⟨_, -, h⟩ := Option.bind_eq_some_iff.mp h
          cases h
          exact hpos ▸ Nat.succ_ne_zero number

/-- A message is no break. -/
theorem WellFormed.entry {message : Bytes} {record : Record}
    (h : dp.decodeRecord knownTypes registry .blank message = some (record, [])) :
    message ≠ [] ∧ message.head? ≠ some 0xff ∧
      Reads (dp.decodeRecord knownTypes registry .blank) message record := by
  obtain ⟨tupleHead, body, hhead, htype, -⟩ := decodeRecord_head h
  refine ⟨?_, ?_, (decodeRecord_streams .blank).reads h⟩
  · rintro rfl
    rw [dp.parseItemHead_nil] at hhead
    cases hhead
  · intro hbreak
    obtain ⟨rest, rfl⟩ := List.head?_eq_some_iff.mp hbreak
    exact dp.parseItemHead_break rest tupleHead body hhead htype

/-- The records that remain are those of the messages that are no spans. -/
theorem records_filter {messages : List Bytes} {records : List Record}
    (h : List.Forall₂ (fun message record =>
      dp.decodeRecord knownTypes registry .blank message = some (record, [])) messages records) :
    (records.filter (·.severity ≠ 0)).map some =
      (messages.filter dp.isRecord).map (dp.recordOf knownTypes registry) := by
  induction h with
  | nil => rfl
  | @cons message record messages records hmessage _ ih =>
    obtain ⟨tupleHead, body, hhead, -, hseverity⟩ := decodeRecord_head hmessage
    have hrecord : dp.isRecord message = decide (record.severity ≠ 0) := by
      by_cases h6 : tupleHead.value = 6
      · rw [if_neg (not_not.mpr h6)] at hseverity
        simp [isRecord, hhead, h6, hseverity]
      · rw [if_pos h6] at hseverity
        simp [isRecord, hhead, h6, hseverity]
    rw [List.filter_cons, List.filter_cons, hrecord]
    split
    · rw [List.map_cons, List.map_cons, ih, recordOf, hmessage]
      rfl
    · exact ih

theorem exists_records {messages : List Bytes}
    (h : ∀ message ∈ messages, dp.WellFormed knownTypes registry message) :
    ∃ records, List.Forall₂ (fun message record =>
      dp.decodeRecord knownTypes registry .blank message = some (record, [])) messages records := by
  induction messages with
  | nil => exact ⟨[], .nil⟩
  | cons message messages ih =>
    obtain ⟨hmessage, hrest⟩ := List.forall_mem_cons.mp h
    obtain ⟨record, hrecord⟩ := hmessage
    obtain ⟨records, hrecords⟩ := ih hrest
    exact ⟨record :: records, .cons hrecord hrecords⟩

end

/-! ## Containers -/

section

variable (dp : ContainerPrimitives) {knownTypes : Nat → Option Kind}
  {registry : Option (Nat → Option Kind)} {epoch : Sink.Epoch} {attributes : Bytes}
  {attrs : List (Nat × Reified)} {messages : List Bytes} {records : List Record}

theorem reads_epoch (h : epoch.InRange) : Reads dp.decodeEpoch epoch.encode epoch := by
  obtain ⟨⟨hslow, hshigh⟩, hlow, hhigh⟩ := h
  have hsigned : ∀ n : Int, -2 ^ 63 ≤ n → n < 2 ^ 63 →
      Reads dp.parseSigned (Cbor.encodeInt n) n := by
    intro n hlow hhigh rest
    rw [← dp.emitInteger_eq n hlow (by omega)]
    exact dp.parseSigned_emit n rest hlow hhigh
  have hhead : Reads (dp.expectItemHead .array 2) (Cbor.encodeHead 4 2) () := by
    intro rest
    rw [← dp.emitArray_eq 2 (by decide)]
    exact dp.expectItemHead_array 2 rest (by decide)
  have hbytes : epoch.encode = Cbor.encodeHead 4 2 ++ (Cbor.encodeInt epoch.systemReference ++
      (Cbor.encodeInt epoch.steadyReference ++ [])) := by
    simp [Sink.Epoch.encode]
  rw [hbytes]
  exact hhead.bind <| (hsigned _ hslow hshigh).bind <| (hsigned _ hlow hhigh).bind <| .pure epoch

theorem reads_magic : Reads parseMagic Sink.magic () := by
  intro rest
  rw [parseMagic, List.take_left, if_pos rfl, List.drop_left]

/-- A sink without attributes writes an empty map. -/
theorem reads_noAttributes (registry : Nat → Option Kind) :
    Reads (dp.decodeAttributes (some registry)) (Cbor.encodeHead 5 0) [] := by
  intro rest
  rw [← dp.emitMap_eq 0 (by decide)]
  exact Parse.bind_of_eq (dp.parseFiniteHead_map 0 rest (by decide))

/-- The resource map of a container. -/
def resource (epoch : Sink.Epoch) (attributes : Bytes) : Bytes :=
  dp.emitMap 3 ++ (dp.emitInteger 0 ++ (dp.emitInteger 0 ++ (dp.emitInteger 4 ++ (epoch.encode ++
    (dp.emitInteger 23 ++ (attributes ++ []))))))

theorem header_eq (epoch : Sink.Epoch) (attributes : Bytes) :
    Sink.Backend.header epoch attributes = Sink.magic ++ (dp.resource epoch
      (if attributes = [] then Cbor.encodeHead 5 0 else attributes) ++ [0x9f]) := by
  have hzero : Cbor.encodeInt 0 = [0x00] := by decide
  have hinteger : ∀ n : Nat, n < 24 → dp.emitInteger n = Cbor.encodeInt n :=
    fun n hn => dp.emitInteger_eq n (by omega) (by omega)
  have h0 := hinteger 0 (by decide)
  have h4 := hinteger 4 (by decide)
  have h23 := hinteger 23 (by decide)
  simp only [Nat.cast_ofNat, Nat.cast_zero] at h0 h4 h23
  simp [Sink.Backend.header, Sink.Backend.headerPieces, resource, dp.emitMap_eq 3, h0, h4, h23,
    hzero]

theorem reads_resource (hepoch : epoch.InRange)
    (hattrs : Reads (dp.decodeAttributes registry) attributes attrs) :
    Reads (dp.decodeResource registry) (dp.resource epoch attributes) (epoch, attrs) :=
  dp.decodeObject_emit 0 4 23 _ _ _ _ _ _ (by decide) (by decide) (by decide)
    (dp.reads_epoch hepoch) hattrs

theorem exists_entries
    (h : List.Forall₂ (fun message record =>
      dp.decodeRecord knownTypes registry .blank message = some (record, [])) messages records) :
    ∃ entries : List (Bytes × Record), entries.flatMap Prod.fst = messages.flatten ∧
      entries.map Prod.snd = records ∧ ∀ e ∈ entries, e.1 ≠ [] ∧ e.1.head? ≠ some 0xff ∧
        Reads (dp.decodeRecord knownTypes registry .blank) e.1 e.2 := by
  induction h with
  | nil => exact ⟨[], rfl, rfl, nofun⟩
  | @cons message record messages records hmessage _ ih =>
    obtain ⟨entries, hbytes, hrecords, hentries⟩ := ih
    refine ⟨(message, record) :: entries, ?_, ?_, ?_⟩
    · rw [List.flatMap_cons, hbytes, List.flatten_cons]
    · rw [List.map_cons, hrecords]
    · exact List.forall_mem_cons.mpr ⟨WellFormed.entry hmessage, hentries⟩

/-- A container of well-formed messages is decoded to its end. -/
theorem reads_container (hepoch : epoch.InRange)
    (hattrs : Reads (dp.decodeAttributes registry)
      (if attributes = [] then Cbor.encodeHead 5 0 else attributes) attrs)
    (hmessages : List.Forall₂ (fun message record =>
      dp.decodeRecord knownTypes registry .blank message = some (record, [])) messages records) :
    Reads (dp.decodeContainer knownTypes registry)
      (Sink.Backend.header epoch attributes ++ messages.flatten ++ [0xff])
      ⟨epoch, attrs, records.filter (·.severity ≠ 0)⟩ := by
  obtain ⟨entries, hbytes, hrecords, hentries⟩ := dp.exists_entries hmessages
  have harray := dp.parseArray_indefinite _ entries hentries
  rw [hbytes, hrecords] at harray
  have hfile : Sink.Backend.header epoch attributes ++ messages.flatten ++ [0xff] =
      Sink.magic ++ (dp.resource epoch
        (if attributes = [] then Cbor.encodeHead 5 0 else attributes) ++
        (0x9f :: (messages.flatten ++ [0xff]) ++ [])) := by
    rw [dp.header_eq]
    simp
  rw [hfile, decodeContainer]
  exact reads_magic.bind <| (dp.reads_resource hepoch hattrs).bind <| harray.bind <| .pure _

/-- A message that is refused makes the container unreadable. -/
theorem decodeContainer_failure (hepoch : epoch.InRange)
    (hattrs : Reads (dp.decodeAttributes registry)
      (if attributes = [] then Cbor.encodeHead 5 0 else attributes) attrs)
    (hmessages : List.Forall₂ (fun message record =>
      dp.decodeRecord knownTypes registry .blank message = some (record, [])) messages records)
    {rest : Bytes} (hbreak : rest.head? ≠ some 0xff)
    (hrest : dp.decodeRecord knownTypes registry .blank rest = none) :
    dp.decodeContainer knownTypes registry
      (Sink.Backend.header epoch attributes ++ messages.flatten ++ rest) = none := by
  obtain ⟨entries, hbytes, -, hentries⟩ := dp.exists_entries hmessages
  have harray := dp.parseArray_failure _ entries rest hentries hbreak hrest
  rw [hbytes] at harray
  have hfile : Sink.Backend.header epoch attributes ++ messages.flatten ++ rest =
      Sink.magic ++ (dp.resource epoch
        (if attributes = [] then Cbor.encodeHead 5 0 else attributes) ++
        (0x9f :: (messages.flatten ++ rest))) := by
    rw [dp.header_eq]
    simp
  rw [hfile, decodeContainer, Parse.bind_of_eq (reads_magic _),
    Parse.bind_of_eq (dp.reads_resource hepoch hattrs _)]
  exact Parse.bind_of_none harray

/-! ## Attributes -/

/-- A plain value is measured exactly, and revived. -/
theorem encodedSizeOf_plain {value : Loggable} (h : value.Plain) :
    dp.encodedSizeOf value = (dp.encode value).length := by
  cases value with
  | systemCode | statusCode => exact h.elim
  | _ => rfl

/-- Nothing is left of the vector behind plain attributes. -/
theorem insertAttributes_plain {args : AttributeArgs}
    (hplain : ∀ attr ∈ args.attributes, attr.value.Plain) :
    dp.insertAttributes args = dp.encodeAttributes args := by
  have hsize : dp.sizeOfAttributes args = (dp.encodeAttributes args).length := by
    rw [Primitives.sizeOfAttributes, Primitives.encodeAttributes, List.length_append,
      List.length_flatMap]
    congr 2
    refine List.map_congr_left fun attr hattr => ?_
    rw [encodedSizeOf_plain dp (hplain attr hattr), Primitives.encodeAnyAttribute,
      List.length_append]
  simp [Primitives.insertAttributes, hsize]

theorem reads_items {α β γ : Type} {item : Parse (β × γ)} {encode : α → Bytes} {key : α → β}
    {Same : α → γ → Prop} {values : List α}
    (hitem : ∀ value ∈ values, ∃ c, Reads item (encode value) (key value, c) ∧ Same value c) :
    ∃ items, Reads (Primitives.decodeItems item values.length) (values.flatMap encode) items ∧
      List.Forall₂ (fun value item => item.1 = key value ∧ Same value item.2) values items := by
  induction values with
  | nil => exact ⟨[], .pure [], .nil⟩
  | cons value values ih =>
    obtain ⟨hvalue, hvalues⟩ := List.forall_mem_cons.mp hitem
    obtain ⟨c, hread, hsame⟩ := hvalue
    obtain ⟨items, hitems, hrest⟩ := ih hvalues
    refine ⟨(key value, c) :: items, fun rest => ?_, .cons ⟨rfl, hsame⟩ hrest⟩
    rw [List.flatMap_cons, List.append_assoc, List.length_cons, Primitives.decodeItems,
      Parse.bind_of_eq (hread _), Parse.bind_of_eq (hitems rest)]
    rfl

/-- Distinct ids are all emplaced. -/
theorem foldl_tryEmplace (store attrs : List (Nat × Reified))
    (h : ((store ++ attrs).map Prod.fst).Nodup) :
    attrs.foldl Primitives.tryEmplace store = store ++ attrs := by
  induction attrs generalizing store with
  | nil => simp
  | cons attr attrs ih =>
    have hnew : store.any (·.1 = attr.1) = false := by
      rw [List.any_eq_false]
      intro other hother heq
      rw [List.map_append, List.nodup_append] at h
      exact h.2.2 other.1 (List.mem_map_of_mem hother) attr.1 (by simp) (of_decide_eq_true heq)
    rw [List.foldl_cons, Primitives.tryEmplace, if_neg (by simp [hnew]), ih]
    · simp
    · simpa using h

/-- The attributes are revived, and the first one with an id is kept. -/
theorem reads_attributes_emplaced {args : AttributeArgs} {registry : Nat → Option Kind}
    (hplain : ∀ attr ∈ args.attributes, attr.value.Plain)
    (hknown : ∀ attr ∈ args.attributes, registry attr.id.toNat = some attr.value.kind) :
    ∃ attrs : List (Nat × Reified),
      Reads (dp.decodeAttributes (some registry)) (dp.insertAttributes args)
        (attrs.foldl Primitives.tryEmplace []) ∧
      List.Forall₂ (fun attr revived => revived.1 = attr.id.toNat ∧
        attr.value.Same (none, revived.2)) args.attributes attrs := by
  have hitem : ∀ attr ∈ args.attributes, ∃ reified,
      Reads (dp.decodeAttribute registry) (dp.encodeAnyAttribute attr) (attr.id.toNat, reified) ∧
        attr.value.Same (none, reified) := by
    intro attr hattr
    obtain ⟨reified, hrevive, hsame⟩ := dp.revive_plain (hplain attr hattr)
    refine ⟨reified, fun rest => ?_, hsame⟩
    rw [Primitives.encodeAnyAttribute, List.append_assoc]
    exact dp.decodeAttribute_of_revive attr.id.toNat_lt (hknown attr hattr) (hrevive rest)
  obtain ⟨attrs, hitems, hsame⟩ := reads_items hitem
  refine ⟨attrs, fun rest => ?_, hsame⟩
  have hlength := args.length_le
  rw [dp.insertAttributes_plain hplain, Primitives.encodeAttributes, List.append_assoc,
    Primitives.decodeAttributes, Parse.bind_of_eq (dp.parseFiniteHead_map _ _ (by omega)),
    Parse.bind_of_eq (hitems rest)]
  rfl

/-- The attributes come back, in the order in which they have been given. -/
theorem reads_attributes {args : AttributeArgs} {registry : Nat → Option Kind}
    (hplain : ∀ attr ∈ args.attributes, attr.value.Plain)
    (hdistinct : (args.attributes.map Attribute.id).Nodup)
    (hknown : ∀ attr ∈ args.attributes, registry attr.id.toNat = some attr.value.kind) :
    ∃ attrs : List (Nat × Reified),
      Reads (dp.decodeAttributes (some registry)) (dp.insertAttributes args) attrs ∧
      List.Forall₂ (fun attr revived => revived.1 = attr.id.toNat ∧
        attr.value.Same (none, revived.2)) args.attributes attrs := by
  obtain ⟨attrs, hreads, hsame⟩ := dp.reads_attributes_emplaced hplain hknown
  have hkeys : attrs.map Prod.fst = args.attributes.map fun attr => attr.id.toNat := by
    clear hreads
    generalize args.attributes = attributes at hsame
    induction hsame with
    | nil => rfl
    | cons hattr _ ih => rw [List.map_cons, List.map_cons, hattr.1, ih]
  have hnodup : (attrs.map Prod.fst).Nodup := by
    rw [hkeys]
    have hmap : ((args.attributes.map Attribute.id).map UInt64.toNat).Nodup :=
      List.Pairwise.map _ (fun _ _ hne heq => hne (UInt64.toNat_inj.mp heq)) hdistinct
    rwa [List.map_map] at hmap
  rw [foldl_tryEmplace [] attrs hnodup, List.nil_append] at hreads
  exact ⟨attrs, hreads, hsame⟩

end

end ContainerPrimitives

/-! ## Plain CBOR -/

namespace Primitives

def readObject {α β : Type} (version id₁ id₂ : Nat) (p : Parse α) (q : Parse β) :
    Parse (α × β) := do
  expect (fromHead (argument .map)) 3
  expect (unsigned (2 ^ 32 - 1)) 0
  expect (unsigned (2 ^ 32 - 1)) version
  expect (unsigned (2 ^ 32 - 1)) id₁
  let a ← p
  expect (unsigned (2 ^ 32 - 1)) id₂
  let b ← q
  pure (a, b)

/-- The items up to a break. -/
def readUntilBreak {α : Type} (item : Parse α) : Nat → Parse (List α)
  | 0 => failure
  | fuel + 1 => fun bs =>
    match bs with
    | 0xff :: rest => some ([], rest)
    | bs => (do
        let first ← item
        let others ← readUntilBreak item fuel
        pure (first :: others) : Parse (List α)) bs

def readArray {α : Type} (item : Parse α) : Parse (List α) := do
  let head ← (Cbor.readHead : Parse Cbor.Head)
  if head.major = 4 then
    match head.value with
    | some n => decodeItems item n
    | none => fun bs => readUntilBreak item (bs.length + 1) bs
  else failure

theorem reads_object {α β : Type} (version id₁ id₂ : Nat) (p : Parse α) (q : Parse β) (x y : Bytes)
    (a : α) (b : β) (hversion : version < 2 ^ 32) (h₁ : id₁ < 2 ^ 32) (h₂ : id₂ < 2 ^ 32)
    (hp : Reads p x a) (hq : Reads q y b) :
    Reads (readObject version id₁ id₂ p q)
      (Cbor.encodeHead 5 3 ++ (Cbor.encodeInt 0 ++ (Cbor.encodeInt version ++ (Cbor.encodeInt id₁ ++
        (x ++ (Cbor.encodeInt id₂ ++ (y ++ []))))))) (a, b) := by
  have hnumber : ∀ n < 2 ^ 32, Reads (expect (unsigned (2 ^ 32 - 1)) n) (Cbor.encodeInt n) () :=
    fun n hn => reads_expect fun rest => unsigned_encodeInt (by omega) (by decide) rest
  have hhead : Reads (expect (fromHead (argument .map)) 3) (Cbor.encodeHead 5 3) () :=
    reads_expect fun rest => argument_encodeHead .map (by decide) rest
  exact hhead.bind <| (hnumber 0 (by decide)).bind <| (hnumber version hversion).bind <|
    (hnumber id₁ h₁).bind <| hp.bind <| (hnumber id₂ h₂).bind <| hq.bind <| .pure (a, b)

theorem readUntilBreak_step {α : Type} {item : Parse α} {fuel : Nat} {bs : Bytes}
    (h : bs.head? ≠ some 0xff) : readUntilBreak item (fuel + 1) bs = (do
      let first ← item
      let others ← readUntilBreak item fuel
      pure (first :: others) : Parse (List α)) bs := by
  rw [readUntilBreak]
  dsimp only
  split
  · exact absurd rfl h
  · rfl

/-- Items in front of what follows them. -/
theorem readUntilBreak_append {α : Type} {item : Parse α} {entries : List (Bytes × α)}
    (h : ∀ e ∈ entries, e.1 ≠ [] ∧ e.1.head? ≠ some 0xff ∧ Reads item e.1 e.2) (fuel : Nat)
    (rest : Bytes) : readUntilBreak item (fuel + entries.length)
      (entries.flatMap Prod.fst ++ rest) =
        (readUntilBreak item fuel rest).map fun read =>
          (entries.map Prod.snd ++ read.1, read.2) := by
  induction entries with
  | nil => simp
  | cons e entries ih =>
    obtain ⟨⟨hne, hbreak, hread⟩, hentries⟩ := List.forall_mem_cons.mp h
    have hhead : (e.1 ++ (entries.flatMap Prod.fst ++ rest)).head? ≠ some 0xff := by
      rwa [List.head?_append_of_ne_nil _ hne]
    rw [List.length_cons, ← Nat.add_assoc, List.flatMap_cons, List.append_assoc,
      readUntilBreak_step hhead, Parse.bind_of_eq (hread _)]
    have hrest := ih hentries
    cases hfuel : readUntilBreak item fuel rest with
    | none =>
      rw [hfuel] at hrest
      exact Parse.bind_of_none hrest
    | some read =>
      rw [hfuel] at hrest
      exact Parse.bind_of_eq hrest

theorem length_le_flatMap {α : Type} {entries : List (Bytes × α)}
    (h : ∀ e ∈ entries, e.1 ≠ []) : entries.length ≤ (entries.flatMap Prod.fst).length := by
  induction entries with
  | nil => rfl
  | cons e entries ih =>
    obtain ⟨he, hentries⟩ := List.forall_mem_cons.mp h
    have hpos := List.length_pos_of_ne_nil he
    have hrest := ih hentries
    rw [List.length_cons, List.flatMap_cons, List.length_append]
    omega

/-- An indefinite array is read by its entries. -/
theorem readArray_append {α : Type} {item : Parse α} {entries : List (Bytes × α)}
    (h : ∀ e ∈ entries, e.1 ≠ [] ∧ e.1.head? ≠ some 0xff ∧ Reads item e.1 e.2) (rest : Bytes) :
    ∃ fuel, readArray item (0x9f :: (entries.flatMap Prod.fst ++ rest)) =
      (readUntilBreak item (fuel + 1) rest).map fun read =>
        (entries.map Prod.snd ++ read.1, read.2) := by
  have hlength := length_le_flatMap fun e he => (h e he).1
  obtain ⟨fuel, hfuel⟩ : ∃ fuel, (entries.flatMap Prod.fst ++ rest).length + 1 =
      fuel + 1 + entries.length := by
    refine ⟨(entries.flatMap Prod.fst ++ rest).length - entries.length, ?_⟩
    rw [List.length_append]
    omega
  refine ⟨fuel, ?_⟩
  rw [← readUntilBreak_append h (fuel + 1) rest, ← hfuel]
  rfl

theorem reads_array {α : Type} {item : Parse α} {entries : List (Bytes × α)}
    (h : ∀ e ∈ entries, e.1 ≠ [] ∧ e.1.head? ≠ some 0xff ∧ Reads item e.1 e.2) :
    Reads (readArray item) (0x9f :: (entries.flatMap Prod.fst ++ [0xff]))
      (entries.map Prod.snd) := by
  intro rest
  obtain ⟨fuel, hread⟩ := readArray_append h ([0xff] ++ rest)
  rw [List.cons_append, List.append_assoc, hread]
  simp [readUntilBreak]

theorem readArray_failure {α : Type} {item : Parse α} {entries : List (Bytes × α)}
    (h : ∀ e ∈ entries, e.1 ≠ [] ∧ e.1.head? ≠ some 0xff ∧ Reads item e.1 e.2) (rest : Bytes)
    (hbreak : rest.head? ≠ some 0xff) (hitem : item rest = none) :
    readArray item (0x9f :: (entries.flatMap Prod.fst ++ rest)) = none := by
  obtain ⟨fuel, hread⟩ := readArray_append h rest
  rw [hread, readUntilBreak_step hbreak, Parse.bind_of_none hitem]
  rfl

theorem fromHead_streams {α : Type} (f : Cbor.Head → Option α) : Streams (fromHead f) := by
  refine (Streams.of_local Cbor.readHead_local).bind fun head => ?_
  cases f head with
  | none => exact .failure
  | some a => exact .pure a

theorem expectHead_streams (type : TypeCode) (n : Nat) : Streams (expectHead type n) :=
  (fromHead_streams _).bind fun _ => .ite (.pure _) .failure

theorem readString_streams (type : TypeCode) : Streams (readString type) :=
  (fromHead_streams _).bind fun n => .of_local (Cbor.readBytes_local n)

theorem integer_streams (lower upper : Int) : Streams (integer lower upper) :=
  (Streams.of_local Cbor.readInt_local).bind fun _ => .ite (.pure _) .failure

theorem readBinary_streams (n : Nat) : Streams (readBinary n) := by
  refine (readString_streams .binary).bind fun bs => ?_
  split
  · exact .pure _
  · exact .failure

theorem parseItemHead_plain_break (rest rest' : Bytes) (head : ItemHead)
    (h : plain.parseItemHead (0xff :: rest) = some (head, rest')) : head.type ≠ .array := by
  cases h
  exact nofun

end Primitives

open Primitives in
def plainContainers : ContainerPrimitives where
  toPrimitives := plain
  decodeObject := readObject
  parseArray := readArray
  decodeObject_emit := reads_object
  parseArray_indefinite _ _ h := reads_array h
  parseArray_failure _ _ rest h hbreak hitem := readArray_failure h rest hbreak hitem
  parseItemHead_nil := rfl
  parseItemHead_break rest head rest' h := parseItemHead_plain_break rest rest' head h
  emitInteger_eq _ _ _ := rfl
  emitArray_eq _ _ := rfl
  emitMap_eq _ _ := rfl
  parseItemHead_streams := fromHead_streams fun head => some (itemHead head)
  expectItemHead_streams := expectHead_streams
  parseFiniteHead_streams _ := fromHead_streams _
  parseInteger_streams _ := (integer_streams _ _).bind fun _ => .pure _
  parseSigned_streams := integer_streams _ _
  parseText_streams := readString_streams .text
  parseBinary_streams := readBinary_streams
  decodeFloat_streams := (fromHead_streams _).bind fun _ => .pure _
  decodeDouble_streams := (fromHead_streams _).bind fun _ => .pure _
  decodeBool_streams := fromHead_streams _
  skipItem_streams := .of_local Cbor.skipItem_local

end Deeplog.Codec

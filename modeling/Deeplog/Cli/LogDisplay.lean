import Deeplog.Sink.Container
import Deeplog.Detail.FileStream

/-!
# The log display of `deeplog-cli`

`LogDisplayComponent::LoadClosedContainer` reads a container with an attribute registry and an
`argument_transmorpher` of its own. The latter knows integers, of which it always knows, and the
two kinds of codes; an argument of any other kind makes the container unreadable.
-/

namespace Deeplog.Cli

open Cbor (Bytes)
open Codec
open Detail (DataSource OsInputStream StreamCall Reading)
open Runs (run Along)

/-! ## The reader -/

/-- `argument_transmorpher::register_type`, which emplaces the type. -/
def registerType (kind : Kind) (knownTypes : Nat → Option Kind) : Nat → Option Kind :=
  fun key => (knownTypes key).or (if key = kind.id then some kind else none)

def argumentTransmorpher : Nat → Option Kind :=
  registerType .systemCode (registerType .statusCode fun _ => none)

/-- The attributes of `attributes.hpp`; a string has a size. -/
inductive OwnAttribute where
  | file (value : Bytes) (size_lt : value.length < 2 ^ 64)
  | line (value : UInt32)
  | function (value : Bytes) (size_lt : value.length < 2 ^ 64)
  | processId (value : UInt32)

/-- `attribute_type_registry::insert`, by the id and the type of an attribute. -/
def insertType (id : Nat) (kind : Kind) (registry : Nat → Option Kind) : Nat → Option Kind :=
  fun key => (registry key).or (if key = id then some kind else none)

def attributeTypeRegistry : Nat → Option Kind :=
  insertType 256 .uint64 (insertType 4 .string (insertType 3 .uint64 (insertType 2 .string
    fun _ => none)))

def OwnAttribute.toAttribute : OwnAttribute → Attribute
  | .file value _ => ⟨2, .string value⟩
  | .line value => ⟨3, .uint64 value.toUInt64⟩
  | .function value _ => ⟨4, .string value⟩
  | .processId value => ⟨256, .uint64 value.toUInt64⟩

/-- A decoder of deeppack that gets its input from an `os_input_stream`, by the calls it makes.
What it decodes is in the file, if the stream has shown it the file. -/
structure StreamDecoder {α : Type} (decode : Parse α) where
  minimumInputBufferSize : Nat
  calls : DataSource → OsInputStream → List StreamCall
  decoded : DataSource → OsInputStream → Option α
  run_calls : ∀ dataSource s, ∃ r, run (Reading.step dataSource minimumInputBufferSize)
    (calls dataSource s) (Reading.start s) = some r
  decoded_eq : ∀ dataSource s r, run (Reading.step dataSource minimumInputBufferSize)
      (calls dataSource s) (Reading.start s) = some r → r.Faithful dataSource.content →
    decoded dataSource s = (decode dataSource.content).map Prod.fst

/-- `open_record_container` -/
def openRecordContainer (content : Bytes) : DataSource where
  isReadable := true
  isSeekable := true
  requiresAlignedIo := false
  content := content

section

variable (dp : ContainerPrimitives)

/-- `basic_decoder<record_container>`, as it has been set up. -/
def decodeContainer : Parse RecordContainer :=
  dp.decodeContainer argumentTransmorpher (some attributeTypeRegistry)

variable {dp} (decoder : StreamDecoder (decodeContainer dp)) (pages file : Bytes)

/-- `LogDisplayComponent::LoadClosedContainer` -/
def loadClosedContainer : Option RecordContainer :=
  let containerFile := openRecordContainer file
  match OsInputStream.create pages containerFile containerFile.content.length with
  | .error _ => none
  | .ok inStream => decoder.decoded containerFile inStream

/-- No call of the decoder reads the file after a refill that has kept something. -/
def UndisturbedStream : Prop :=
  ∀ inStream, OsInputStream.create pages (openRecordContainer file) file.length = .ok inStream →
    Along (Reading.step (openRecordContainer file) decoder.minimumInputBufferSize)
      Reading.ReadsBeforeKept (decoder.calls (openRecordContainer file) inStream)
      (Reading.start inStream)

variable {decoder pages file}

/-- Then the container is what is in the file. -/
theorem loadClosedContainer_eq (hne : file ≠ []) (hsize : file.length < 2 ^ 64)
    (hstream : UndisturbedStream decoder pages file) :
    loadClosedContainer decoder pages file = (decodeContainer dp file).map Prod.fst := by
  have hcreate : OsInputStream.create pages (openRecordContainer file) file.length =
      .ok (.opened file) := (OsInputStream.create_eq_ok_iff rfl).mpr ⟨rfl, rfl, hne, rfl⟩
  obtain ⟨r, hrun⟩ := decoder.run_calls (openRecordContainer file) (.opened file)
  have hfaithful : r.Faithful file :=
    Reading.delivers_unchanged rfl hsize hcreate (hstream _ hcreate) hrun
  simp only [loadClosedContainer, openRecordContainer] at hcreate ⊢
  rw [hcreate]
  exact decoder.decoded_eq _ _ r hrun hfaithful

end

/-! ## Kinds -/

/-- The kinds that the reader revives. -/
def Readable : Kind → Prop
  | .uint64 | .int64 | .systemCode | .statusCode => True
  | .floatSingle | .floatDouble | .boolean | .string => False

instance : DecidablePred Readable
  | .uint64 | .int64 | .systemCode | .statusCode => .isTrue trivial
  | .floatSingle | .floatDouble | .boolean | .string => .isFalse id

theorem reviveKey_readable (dp : Primitives) {kind : Kind} (h : Readable kind) :
    dp.reviveKey argumentTransmorpher kind.id = dp.revive kind := by
  cases kind with
  | floatSingle | floatDouble | boolean | string => exact h.elim
  | _ => rfl

theorem reviveKey_unreadable (dp : Primitives) {kind : Kind} (h : ¬Readable kind) :
    dp.reviveKey argumentTransmorpher kind.id = failure := by
  cases kind with
  | floatSingle | floatDouble | boolean | string => rfl
  | _ => exact absurd trivial h

theorem OwnAttribute.registered (own : OwnAttribute) :
    attributeTypeRegistry own.toAttribute.id.toNat = some own.toAttribute.value.kind := by
  cases own <;> rfl

theorem OwnAttribute.plain (own : OwnAttribute) : own.toAttribute.value.Plain := by
  cases own with
  | file value size_lt | function value size_lt => exact size_lt
  | line | processId => trivial

/-- A list that does not satisfy a predicate has a first element to blame. -/
theorem exists_first {α : Type} {p : α → Prop} [DecidablePred p] {l : List α}
    (h : ¬∀ a ∈ l, p a) :
    ∃ before a after, l = before ++ a :: after ∧ (∀ b ∈ before, p b) ∧ ¬p a := by
  induction l with
  | nil => exact absurd nofun h
  | cons a l ih =>
    by_cases ha : p a
    · obtain ⟨before, b, after, rfl, hbefore, hb⟩ :=
        ih fun hl => h (List.forall_mem_cons.mpr ⟨ha, hl⟩)
      exact ⟨a :: before, b, after, rfl, List.forall_mem_cons.mpr ⟨ha, hbefore⟩, hb⟩
    · exact ⟨[], a, l, rfl, nofun, ha⟩

/-! ## What has been logged -/

/-- The domain id of a code takes nine bytes. -/
def LargeDomain : Loggable → Prop
  | .systemCode code => 2 ^ 32 ≤ code.domainId.toNat
  | .statusCode code => 2 ^ 32 ≤ code.domainId.toNat
  | _ => True

instance : DecidablePred LargeDomain
  | .systemCode _ | .statusCode _ => inferInstanceAs (Decidable (_ ≤ _))
  | .uint64 _ | .int64 _ | .floatSingle _ | .floatDouble _ | .boolean _ | .string _ =>
    .isTrue trivial

/-- A call of `vlog`, and the record it has produced. -/
structure Logged (dp : Primitives) where
  logCtx : LogContext
  args : LogArgs
  timeStamp : UInt64
  partly : Bytes → Nat → Nat
  allocate : Nat → Option Nat
  message : Bytes
  room : ∀ n capacity, allocate n = some capacity → n ≤ capacity
  vlog_eq : vlog dp logCtx args partly allocate timeStamp = some (some message)
  size_lt : totalSize dp logCtx args < 2 ^ 32
  domains : ∀ value ∈ args.arguments, LargeDomain value
  nonNegative : ∀ value ∈ args.arguments, value.NonNegative

namespace Logged

/-- Only arguments that the reader revives. -/
def Readable {dp : Primitives} (e : Logged dp) : Prop :=
  ∀ value ∈ e.args.arguments, Cli.Readable value.kind

instance {dp : Primitives} (e : Logged dp) : Decidable e.Readable :=
  inferInstanceAs (Decidable (∀ value ∈ e.args.arguments, Cli.Readable value.kind))

/-- The record is what has been logged, with the span if it has been written. -/
def Loaded {dp : Primitives} (e : Logged dp) (r : Record) : Prop :=
  r.Tells { e.logCtx with span := Primitives.ownerSpan e.logCtx } e.args e.timeStamp

variable {dp : ContainerPrimitives} (e : Logged dp.toPrimitives)

theorem message_eq : e.message = recordBytes dp.toPrimitives e.logCtx e.args e.timeStamp :=
  message_of_vlog e.size_lt e.room e.vlog_eq

theorem severity_range : e.args.severity ≠ 0 ∧ e.args.severity ≤ 24 := by
  have h := e.vlog_eq
  simp only [vlog] at h
  split_ifs at h with hpos hle
  · cases h
  · exact ⟨hpos, Nat.le_of_not_lt hle⟩

theorem arguments_size :
    (e.args.arguments.flatMap dp.encodeAnyLoggable).length < 2 ^ 32 := by
  have hsize := e.size_lt
  have hlength := arguments_length_le dp.toPrimitives e.args.arguments
  simp only [totalSize] at hsize
  omega

/-- A readable record is decoded. -/
theorem decodes (h : e.Readable) :
    ∃ r, dp.decodeRecord argumentTransmorpher (some attributeTypeRegistry) .blank e.message =
      some (r, []) ∧ e.Loaded r := by
  obtain ⟨hpos, hle⟩ := e.severity_range
  obtain ⟨formatArguments, hsame, hrecord⟩ := dp.decodeRecord_complete e.timeStamp hpos hle
    e.size_lt e.nonNegative (fun value hvalue =>
      reviveKey_readable dp.toPrimitives (h value hvalue))
    (show attributeTypeRegistry 2 = some .string from rfl) rfl
  rw [← e.message_eq] at hrecord
  exact ⟨_, hrecord, rfl, rfl, rfl, rfl, rfl, hsame, rfl⟩

/-- Any other is refused, whatever follows. -/
theorem refused (h : ¬e.Readable) (rest : Bytes) :
    dp.decodeRecord argumentTransmorpher (some attributeTypeRegistry) .blank (e.message ++ rest) =
      none := by
  obtain ⟨hpos, hle⟩ := e.severity_range
  obtain ⟨before, unknown, after, hargs, hbefore, hunknown⟩ :=
    exists_first (p := fun value : Loggable => Cli.Readable value.kind) h
  have hvalue : ∀ value ∈ before, value.NonNegative := fun value hmem =>
    e.nonNegative value (hargs ▸ List.mem_append_left _ hmem)
  have hsize := e.arguments_size
  rw [hargs] at hsize
  have harguments := dp.decodeArguments_unknown
    (fun value hmem => reviveKey_readable dp.toPrimitives (hbefore value hmem))
    (reviveKey_unreadable dp.toPrimitives hunknown) hvalue hsize
    (dp.attributeBytes e.args ++ rest)
  rw [← hargs] at harguments
  rw [e.message_eq, dp.decodeRecord_front _ _ _ hpos hle e.size_lt]
  exact Parse.bind_of_none harguments

/-- A record is no break. -/
theorem head_ne (rest : Bytes) : (e.message ++ rest).head? ≠ some 0xff := by
  intro hbreak
  obtain ⟨tail, htail⟩ := List.head?_eq_some_iff.mp hbreak
  have hhead := dp.parseItemHead_array 6 (e.message.drop (dp.emitArray 6).length ++ rest)
    (by decide)
  have hmessage : dp.emitArray 6 ++ (e.message.drop (dp.emitArray 6).length ++ rest) =
      0xff :: tail := by
    rw [← htail, ← List.append_assoc, e.message_eq, recordBytes, bytesOf_headPieces]
    simp
  rw [hmessage] at hhead
  exact dp.parseItemHead_break _ _ _ hhead rfl

end Logged

/-! ## Loading -/

open Sink (Epoch Writer attributeBytes insertAttributes_ne_nil)
open Sink.Backend (FileOp header makeFile fileStep finalizeFile finalizeFile_run)

section

variable (dp : ContainerPrimitives)

/-- The file of a sink that has written these messages. -/
def closedFile (epoch : Epoch) (args : Option AttributeArgs) (messages : List Bytes) : Bytes :=
  header epoch (attributeBytes dp args) ++ messages.flatten ++ [0xff]

variable {dp} {epoch : Epoch} {args : Option AttributeArgs} {logged : List (Logged dp.toPrimitives)}

theorem closedFile_ne_nil (messages : List Bytes) : closedFile dp epoch args messages ≠ [] := by
  simp [closedFile]

variable (dp) in
/-- The library's own attributes are revived. -/
theorem reads_ownAttributes
    (hown : ∀ given ∈ args, ∀ attr ∈ given.attributes, ∃ own : OwnAttribute,
      attr = own.toAttribute) :
    ∃ attrs, Reads (dp.decodeAttributes (some attributeTypeRegistry))
      (if attributeBytes dp args = [] then Cbor.encodeHead 5 0 else attributeBytes dp args)
      attrs := by
  cases args with
  | none => exact ⟨[], dp.reads_noAttributes attributeTypeRegistry⟩
  | some given =>
    have hplain : ∀ attr ∈ given.attributes, attr.value.Plain := by
      intro attr hattr
      obtain ⟨own, rfl⟩ := hown given rfl attr hattr
      exact own.plain
    have hregistered : ∀ attr ∈ given.attributes,
        attributeTypeRegistry attr.id.toNat = some attr.value.kind := by
      intro attr hattr
      obtain ⟨own, rfl⟩ := hown given rfl attr hattr
      exact own.registered
    obtain ⟨attrs, hreads, -⟩ := dp.reads_attributes_emplaced hplain hregistered
    refine ⟨attrs.foldl Primitives.tryEmplace [], ?_⟩
    rwa [attributeBytes, Option.map_some, Option.getD_some,
      if_neg (insertAttributes_ne_nil dp given)]

theorem Logged.exists_records (h : ∀ e ∈ logged, e.Readable) :
    ∃ records, List.Forall₂ (fun message record =>
        dp.decodeRecord argumentTransmorpher (some attributeTypeRegistry) .blank message =
          some (record, [])) (logged.map Logged.message) records ∧
      List.Forall₂ Logged.Loaded logged records := by
  induction logged with
  | nil => exact ⟨[], .nil, .nil⟩
  | cons e logged ih =>
    obtain ⟨he, hlogged⟩ := List.forall_mem_cons.mp h
    obtain ⟨record, hrecord, hloaded⟩ := e.decodes he
    obtain ⟨records, hrecords, hall⟩ := ih hlogged
    exact ⟨record :: records, .cons hrecord hrecords, .cons hloaded hall⟩

/-- No record of `vlog` is taken for a span. -/
theorem Logged.filter_records {records : List Record}
    (h : List.Forall₂ Logged.Loaded logged records) :
    records.filter (·.severity ≠ 0) = records := by
  rw [List.filter_eq_self]
  induction h with
  | nil => nofun
  | @cons e record _ _ hloaded _ ih =>
    refine List.forall_mem_cons.mpr ⟨?_, ih⟩
    rw [decide_eq_true_eq, hloaded.severity]
    exact e.severity_range.1

/-- With readable records the container is decoded, and has them all. -/
theorem decodeContainer_readable (hepoch : epoch.InRange)
    (hown : ∀ given ∈ args, ∀ attr ∈ given.attributes, ∃ own : OwnAttribute,
      attr = own.toAttribute)
    (h : ∀ e ∈ logged, e.Readable) :
    ∃ container, decodeContainer dp (closedFile dp epoch args (logged.map Logged.message)) =
        some (container, []) ∧ List.Forall₂ Logged.Loaded logged container.records := by
  obtain ⟨attrs, hattrs⟩ := reads_ownAttributes dp hown
  obtain ⟨records, hrecords, hloaded⟩ := Logged.exists_records h
  have hread := dp.reads_container hepoch hattrs hrecords []
  rw [List.append_nil, Logged.filter_records hloaded] at hread
  exact ⟨_, hread, hloaded⟩

/-- With any other record it is not. -/
theorem decodeContainer_unreadable (hepoch : epoch.InRange)
    (hown : ∀ given ∈ args, ∀ attr ∈ given.attributes, ∃ own : OwnAttribute,
      attr = own.toAttribute)
    (h : ¬∀ e ∈ logged, e.Readable) :
    decodeContainer dp (closedFile dp epoch args (logged.map Logged.message)) = none := by
  obtain ⟨attrs, hattrs⟩ := reads_ownAttributes dp hown
  obtain ⟨before, e, after, rfl, hbefore, he⟩ := exists_first h
  obtain ⟨records, hrecords, -⟩ := Logged.exists_records hbefore
  have hfile : closedFile dp epoch args ((before ++ e :: after).map Logged.message) =
      header epoch (attributeBytes dp args) ++ (before.map Logged.message).flatten ++
        (e.message ++ ((after.map Logged.message).flatten ++ [0xff])) := by
    simp [closedFile]
  rw [hfile]
  exact dp.decodeContainer_failure hepoch hattrs hrecords (e.head_ne _) (e.refused he _)

variable {decoder : StreamDecoder (decodeContainer dp)} {pages : Bytes}

/-- The container of a file sink is loaded with all of its records exactly if no argument in it is
a float, a bool or a string, provided that the stream is not disturbed. -/
theorem loads_iff (w : Writer) (targetBufferSize : Nat) (hepoch : epoch.InRange)
    (hown : ∀ given ∈ args, ∀ attr ∈ given.attributes, ∃ own : OwnAttribute,
      attr = own.toAttribute)
    (ops : List FileOp) (hlogged : ops.flatMap FileOp.batch = logged.map Logged.message)
    (hsize : (closedFile dp epoch args (logged.map Logged.message)).length < 2 ^ 64)
    (hstream : UndisturbedStream decoder pages
      (closedFile dp epoch args (logged.map Logged.message))) :
    ∃ s s' file,
      (makeFile w targetBufferSize (attributeBytes dp args) epoch).bind
        (run (fileStep w) ops) = some s ∧
      finalizeFile w s = some s' ∧ s'.closed = [(0, file)] ∧
      ((∃ container, loadClosedContainer decoder pages file = some container ∧
        List.Forall₂ Logged.Loaded logged container.records) ↔
      ∀ e ∈ logged, ∀ value ∈ e.args.arguments, Readable value.kind) := by
  obtain ⟨s, s', hrun, hfinalize, hclosed⟩ :=
    finalizeFile_run w targetBufferSize (attributeBytes dp args) epoch ops
  rw [hlogged] at hclosed
  refine ⟨s, s', _, hrun, hfinalize, hclosed, ?_⟩
  rw [← closedFile, loadClosedContainer_eq (closedFile_ne_nil _) hsize hstream]
  constructor
  · rintro ⟨container, hload, -⟩
    by_contra hunreadable
    rw [decodeContainer_unreadable hepoch hown hunreadable] at hload
    cases hload
  · intro hreadable
    obtain ⟨container, hdecode, hloaded⟩ := decodeContainer_readable hepoch hown hreadable
    exact ⟨container, by rw [hdecode]; rfl, hloaded⟩

end

/-! ## Samples -/

theorem discardBuffered_run (dataSource : DataSource) (s : OsInputStream) (n : Nat) :
    ∃ r, run (Reading.step dataSource n) [.discardBuffered s.buffered.length]
      (Reading.start s) = some r :=
  ⟨_, Runs.run_cons_eq_some.mpr ⟨_, if_pos (Nat.le_refl _), rfl⟩⟩

/-- A decoder that takes all that is buffered at once. -/
def wholeDecoder {α : Type} (decode : Parse α) : StreamDecoder decode where
  minimumInputBufferSize := 40
  calls _ s := [.discardBuffered s.buffered.length]
  decoded dataSource _ := (decode dataSource.content).map Prod.fst
  run_calls dataSource s := discardBuffered_run dataSource s 40
  decoded_eq _ _ _ _ _ := rfl

theorem wholeDecoder_undisturbed (dp : ContainerPrimitives) (pages file : Bytes) :
    UndisturbedStream (wholeDecoder (decodeContainer dp)) pages file := by
  intro inStream _
  refine ⟨⟨False.elim, ?_⟩, fun _ _ => trivial⟩
  exact Nat.two_pow_pos 64

/-- A record in a buffer with room for it. -/
def Logged.ofFits (dp : Primitives) (logCtx : LogContext) (args : LogArgs) (timeStamp : UInt64)
    (hpos : args.severity ≠ 0) (hle : args.severity ≤ 24)
    (size_lt : totalSize dp logCtx args < 2 ^ 32)
    (domains : ∀ value ∈ args.arguments, LargeDomain value)
    (nonNegative : ∀ value ∈ args.arguments, value.NonNegative) : Logged dp where
  logCtx := logCtx
  args := args
  timeStamp := timeStamp
  partly _ _ := 0
  allocate n := some (max n (recordBytes dp logCtx args timeStamp).length)
  message := recordBytes dp logCtx args timeStamp
  room _ _ h := Option.some.inj h ▸ Nat.le_max_left _ _
  vlog_eq := vlog_of_fits hpos hle rfl (Nat.le_max_right _ _)
  size_lt := size_lt
  domains := domains
  nonNegative := nonNegative

def displayContext : LogContext := ⟨none, .empty⟩

theorem nowhere_size : (-1 : Int16).toInt ≤ ([] : Bytes).length := by decide

/-- A short message with these arguments, from nowhere. -/
def displayArgs (arguments : List Loggable) : LogArgs :=
  ⟨1, [0x7b, 0x7d], arguments, ⟨[], -1, -1, nowhere_size⟩⟩

theorem displayArgs_severity (arguments : List Loggable) :
    (displayArgs arguments).severity ≠ 0 ∧ (displayArgs arguments).severity ≤ 24 := by
  have hrange : 1 ≠ 0 ∧ 1 ≤ 24 := by decide
  exact hrange

/-- A number, and a status code from a large domain. -/
def readableArgs : LogArgs :=
  displayArgs [.uint64 7, .statusCode ⟨0x100000000, [0x64], [0x6d]⟩]

theorem readableArgs_valid :
    totalSize plainContainers.toPrimitives displayContext readableArgs < 2 ^ 32 ∧
      (∀ value ∈ readableArgs.arguments, LargeDomain value) ∧
      ∀ value ∈ readableArgs.arguments, value.NonNegative := by
  refine ⟨by decide, by decide, ?_⟩
  rintro value hvalue
  rcases List.mem_pair.mp hvalue with rfl | rfl <;> trivial

def readableRecord : Logged plainContainers.toPrimitives :=
  .ofFits plainContainers.toPrimitives displayContext readableArgs 7 (displayArgs_severity _).1
    (displayArgs_severity _).2 readableArgs_valid.1 readableArgs_valid.2.1 readableArgs_valid.2.2

def booleanArgs : LogArgs := displayArgs [.boolean true]

theorem booleanArgs_valid :
    totalSize plainContainers.toPrimitives displayContext booleanArgs < 2 ^ 32 ∧
      (∀ value ∈ booleanArgs.arguments, LargeDomain value) ∧
      ∀ value ∈ booleanArgs.arguments, value.NonNegative := by
  refine ⟨by decide, by decide, ?_⟩
  rintro value hvalue
  cases List.mem_singleton.mp hvalue
  trivial

def booleanRecord : Logged plainContainers.toPrimitives :=
  .ofFits plainContainers.toPrimitives displayContext booleanArgs 7 (displayArgs_severity _).1
    (displayArgs_severity _).2 booleanArgs_valid.1 booleanArgs_valid.2.1 booleanArgs_valid.2.2

/-- The attributes of a process. -/
def processAttributes : AttributeArgs :=
  ⟨[(OwnAttribute.processId 99).toAttribute], Nat.le_add_left 1 65534⟩

theorem processAttributes_own : ∀ given ∈ some processAttributes, ∀ attr ∈ given.attributes,
    ∃ own : OwnAttribute, attr = own.toAttribute := by
  rintro _ ⟨⟩ attr hattr
  exact ⟨.processId 99, List.mem_singleton.mp hattr⟩

theorem loads_iff_sample :
    ∃ s s' file,
      (makeFile Sink.Backend.plainWriter 7 (attributeBytes plainContainers (some processAttributes))
        ⟨5, -7⟩).bind (run (fileStep Sink.Backend.plainWriter)
          [.messages [readableRecord.message], .syncOutput]) = some s ∧
      finalizeFile Sink.Backend.plainWriter s = some s' ∧ s'.closed = [(0, file)] ∧
      ((∃ container, loadClosedContainer (wholeDecoder (decodeContainer plainContainers)) [] file =
          some container ∧ List.Forall₂ Logged.Loaded [readableRecord] container.records) ↔
        ∀ e ∈ [readableRecord], ∀ value ∈ e.args.arguments, Readable value.kind) :=
  loads_iff Sink.Backend.plainWriter 7 (by decide) processAttributes_own
    [.messages [readableRecord.message], .syncOutput] rfl (by decide)
    (wholeDecoder_undisturbed _ _ _)

/-- The file of a sink that has written only the bool. -/
def booleanFile : Bytes :=
  closedFile plainContainers ⟨5, -7⟩ none ([booleanRecord].map Logged.message)

theorem booleanFile_refused : decodeContainer plainContainers booleanFile = none := by
  have hunreadable : ¬∀ e ∈ [booleanRecord], e.Readable := by decide
  exact decodeContainer_unreadable (by decide) nofun hunreadable

theorem booleanFile_not_loaded :
    loadClosedContainer (wholeDecoder (decodeContainer plainContainers)) [] booleanFile = none := by
  have hne : booleanFile ≠ [] := closedFile_ne_nil _
  have hsize : booleanFile.length < 2 ^ 64 := by decide
  rw [loadClosedContainer_eq hne hsize (wholeDecoder_undisturbed _ _ _), booleanFile_refused]
  rfl

/-- A bool is enough. -/
theorem not_loads : ¬∀ (dp : ContainerPrimitives) (decoder : StreamDecoder (decodeContainer dp))
    (pages : Bytes) (w : Writer) (targetBufferSize : Nat) (epoch : Epoch)
    (args : Option AttributeArgs) (ops : List FileOp) (logged : List (Logged dp.toPrimitives)),
    epoch.InRange →
    (∀ given ∈ args, ∀ attr ∈ given.attributes, ∃ own : OwnAttribute, attr = own.toAttribute) →
    ops.flatMap FileOp.batch = logged.map Logged.message →
    (closedFile dp epoch args (logged.map Logged.message)).length < 2 ^ 64 →
    UndisturbedStream decoder pages (closedFile dp epoch args (logged.map Logged.message)) →
    ∃ s s' file container,
      (makeFile w targetBufferSize (attributeBytes dp args) epoch).bind
        (run (fileStep w) ops) = some s ∧
      finalizeFile w s = some s' ∧ s'.closed = [(0, file)] ∧
      loadClosedContainer decoder pages file = some container ∧
      List.Forall₂ Logged.Loaded logged container.records := by
  intro h
  obtain ⟨s, s', file, container, hrun, hfinalize, hclosed, hload, -⟩ :=
    h plainContainers (wholeDecoder _) [] Sink.Backend.plainWriter 7 ⟨5, -7⟩ none
      [.messages [booleanRecord.message]] [booleanRecord] (by decide) nofun rfl (by decide)
      (wholeDecoder_undisturbed _ _ _)
  obtain ⟨t, t', hrun', hfinalize', hclosed'⟩ := finalizeFile_run Sink.Backend.plainWriter 7
    (attributeBytes plainContainers none) ⟨5, -7⟩ [.messages [booleanRecord.message]]
  cases hrun.symm.trans hrun'
  cases hfinalize.symm.trans hfinalize'
  have hfile : file = booleanFile := by
    rw [hclosed'] at hclosed
    simpa [booleanFile, closedFile, FileOp.batch] using hclosed.symm
  rw [hfile, booleanFile_not_loaded] at hload
  cases hload

end Deeplog.Cli

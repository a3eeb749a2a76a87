import Deeplog.Codec.Container

/-!
# The file of a file sink

`file_sink_backend` writes a single container: the header when it is initialised, the messages as
they come, and a break when it is finalised. Neither the size of the buffer nor a `sync_output`
can be seen in the file, and its reader finds again what has been written.
-/

namespace Deeplog.Sink

open Cbor (Bytes)
open Codec (Kind Reified AttributeArgs ContainerPrimitives Reads)

namespace Backend

variable (w : Writer)

/-- `file_sink_backend::do_rotate`: an empty file needs its header. -/
def doRotateFile (s : Backend) : Option (Bool × Backend) :=
  s.backingFile.map fun file => (file.length = 0, s)

def fileSyncOutput (s : Backend) : Option Backend := s.syncOutput w doRotateFile

def defaultBufferSize : Nat := 64 * 1024

/-- `make<file_sink_backend>`, where the file has been created. -/
def makeFile (targetBufferSize : Nat) (attributes : Bytes) (epoch : Epoch) : Option Backend :=
  let targetBufferSize := if 0 < targetBufferSize then targetBufferSize else defaultBufferSize
  rotate w doRotateFile
    { start 0 targetBufferSize "" attributes epoch with backingFile := some [] }

/-- `file_sink_backend::finalize` -/
def finalizeFile (s : Backend) : Option Backend :=
  match s.backingFile with
  | none => some s
  | some _ => (fileSyncOutput w (s.put w [0xff])).map fun s =>
      { s with buffered := [] }.closeFile 0

/-- What happens to a file sink before it is finalised. -/
inductive FileOp where
  | messages (batch : List Bytes)
  | syncOutput

def FileOp.batch : FileOp → List Bytes
  | .messages batch => batch
  | .syncOutput => []

def fileStep : FileOp → Backend → Option Backend
  | .messages batch, s => some (batch.foldl (fun s message => s.put w message) s)
  | .syncOutput, s => fileSyncOutput w s

/-! ## What is in the file -/

/-- The file holds these bytes, or will when the buffer has been flushed. -/
structure Contains (s : Backend) (bytes : Bytes) : Prop where
  content : s.content = some bytes
  closed : s.closed = []

variable {w : Writer} {s s' : Backend} {bytes attributes : Bytes} {epoch : Epoch}

theorem Contains.wrote {more : Bytes} (h : s.Contains bytes) (hw : Wrote more s s') :
    s'.Contains (bytes ++ more) := by
  refine ⟨?_, ?_⟩
  · rw [hw.content, h.content, Option.map_some]
  · obtain ⟨-, -, -, -, -, -, hclosed⟩ := core_inj hw.core_eq
    exact hclosed.trans h.closed

/-- A file with its header is not rotated. -/
theorem Contains.fileSyncOutput (h : s.Contains bytes) (hne : bytes ≠ []) :
    ∃ s', Backend.fileSyncOutput w s = some s' ∧ s'.Contains bytes ∧
      s'.backingFile = some bytes := by
  obtain ⟨hfile, hempty, hcore⟩ := flush_content s
  obtain ⟨-, -, -, -, -, -, hclosed⟩ := core_inj hcore
  rw [h.content] at hfile
  have hlength : ¬bytes.length = 0 := fun hzero => hne (List.eq_nil_of_length_eq_zero hzero)
  refine ⟨s.flush, ?_, ⟨?_, hclosed.trans h.closed⟩, hfile⟩
  · simp [Backend.fileSyncOutput, syncOutput, rotate, doRotateFile, hfile, hne]
  · rw [Backend.content, hfile, hempty, Option.map_some, List.append_nil]

theorem makeFile_contains (targetBufferSize : Nat) (attributes : Bytes) (epoch : Epoch) :
    ∃ s, makeFile w targetBufferSize attributes epoch = some s ∧
      s.Contains (header epoch attributes) := by
  let size := if 0 < targetBufferSize then targetBufferSize else defaultBufferSize
  let opened : Backend := { start 0 size "" attributes epoch with backingFile := some [] }
  obtain ⟨hfile, hempty, hcore⟩ := writeHeader_content w
    (show opened.backingFile = some [] from rfl)
  obtain ⟨-, -, -, -, -, -, hclosed⟩ := core_inj hcore
  refine ⟨opened.writeHeader w, rfl, ?_, hclosed⟩
  rw [content, hfile, hempty, Option.map_some, List.append_nil]
  rfl

theorem Contains.step (h : s.Contains bytes) (hne : bytes ≠ []) (op : FileOp) :
    ∃ s', fileStep w op s = some s' ∧ s'.Contains (bytes ++ op.batch.flatten) := by
  cases op with
  | messages batch => exact ⟨_, rfl, h.wrote (puts_wrote w batch s)⟩
  | syncOutput =>
    obtain ⟨s', hsync, hs', -⟩ := h.fileSyncOutput hne
    refine ⟨s', hsync, ?_⟩
    rwa [FileOp.batch, List.flatten_nil, List.append_nil]

theorem Contains.run (ops : List FileOp) (h : s.Contains bytes) (hne : bytes ≠ []) :
    ∃ s', Runs.run (fileStep w) ops s = some s' ∧
      s'.Contains (bytes ++ (ops.flatMap FileOp.batch).flatten) := by
  induction ops generalizing s bytes with
  | nil => exact ⟨s, rfl, by simpa using h⟩
  | cons op ops ih =>
    obtain ⟨s₁, hstep, h₁⟩ := h.step (w := w) hne op
    obtain ⟨s', hrun, h'⟩ := ih h₁ (List.append_ne_nil_of_left_ne_nil hne _)
    refine ⟨s', Runs.run_cons_eq_some.mpr ⟨s₁, hstep, hrun⟩, ?_⟩
    rwa [List.flatMap_cons, List.flatten_append, ← List.append_assoc]

theorem Contains.finalizeFile (h : s.Contains bytes) :
    ∃ s', Backend.finalizeFile w s = some s' ∧ s'.closed = [(0, bytes ++ [0xff])] := by
  have hput := h.wrote (put_wrote w [0xff] s)
  obtain ⟨s', hsync, hs', hfile⟩ := hput.fileSyncOutput (w := w) (by simp)
  have hopen : ∃ file, s.backingFile = some file := by
    cases hnone : s.backingFile with
    | none => exact absurd h.content (by simp [Backend.content, hnone])
    | some file => exact ⟨file, rfl⟩
  obtain ⟨file, hopen⟩ := hopen
  refine ⟨{ s' with buffered := [] }.closeFile 0, ?_, ?_⟩
  · simp only [Backend.finalizeFile, hopen, hsync, Option.map_some]
  · simp [closeFile, hfile, hs'.closed]

/-- A finalised file is the header, the messages and a break. -/
theorem finalizeFile_run (w : Writer) (targetBufferSize : Nat) (attributes : Bytes) (epoch : Epoch)
    (ops : List FileOp) :
    ∃ s s',
      (makeFile w targetBufferSize attributes epoch).bind (Runs.run (fileStep w) ops) = some s ∧
      finalizeFile w s = some s' ∧
      s'.closed =
        [(0, header epoch attributes ++ (ops.flatMap FileOp.batch).flatten ++ [0xff])] := by
  obtain ⟨s₀, hmake, h₀⟩ := makeFile_contains (w := w) targetBufferSize attributes epoch
  have hne := header_ne_nil epoch attributes
  obtain ⟨s, hrun, h⟩ := h₀.run (w := w) ops hne
  obtain ⟨s', hfinalize, hclosed⟩ := h.finalizeFile (w := w)
  exact ⟨s, s', by rw [hmake]; exact hrun, hfinalize, hclosed⟩

end Backend

/-! ## Round trip -/

section

variable (dp : ContainerPrimitives) {knownTypes registry : Nat → Option Kind} {epoch : Epoch}

/-- The bytes of a `cbor_attribute_map`, into which attributes may never have been inserted. -/
def attributeBytes (args : Option AttributeArgs) : Bytes :=
  (args.map dp.insertAttributes).getD []

/-- A container tells what has been written: the epoch, the attributes, and the messages that are
no spans. -/
structure Recounts (knownTypes registry : Nat → Option Kind) (epoch : Epoch)
    (args : Option AttributeArgs) (messages : List Bytes) (container : Codec.RecordContainer) :
    Prop where
  epoch : container.epoch = epoch
  attributes : List.Forall₂ (fun attr revived => revived.1 = attr.id.toNat ∧
    attr.value.Same (none, revived.2)) ((args.map AttributeArgs.attributes).getD [])
    container.attributes
  records : container.records.map some =
    (messages.filter dp.isRecord).map (dp.recordOf knownTypes (some registry))

theorem insertAttributes_ne_nil (args : AttributeArgs) : dp.insertAttributes args ≠ [] := by
  have hhead : dp.emitMap args.attributes.length ≠ [] := by
    have hlength := args.length_le
    rw [dp.emitMap_eq _ (by omega)]
    intro hnil
    have hpos := (Cbor.encodeHead_length 5 args.attributes.length).1
    rw [hnil] at hpos
    exact absurd hpos (by decide)
  simp [Codec.Primitives.insertAttributes, Codec.Primitives.encodeAttributes, hhead]

/-- The attributes of a header are revived, and so are none. -/
theorem reads_attributeBytes {args : Option AttributeArgs}
    (hplain : ∀ given ∈ args, ∀ attr ∈ given.attributes, attr.value.Plain)
    (hdistinct : ∀ given ∈ args, (given.attributes.map Codec.Attribute.id).Nodup)
    (hknown : ∀ given ∈ args, ∀ attr ∈ given.attributes,
      registry attr.id.toNat = some attr.value.kind) :
    ∃ attrs : List (Nat × Reified),
      Reads (dp.decodeAttributes (some registry)) (if attributeBytes dp args = [] then
        Cbor.encodeHead 5 0 else attributeBytes dp args) attrs ∧
      List.Forall₂ (fun attr revived => revived.1 = attr.id.toNat ∧
        attr.value.Same (none, revived.2)) ((args.map AttributeArgs.attributes).getD []) attrs := by
  cases args with
  | none => exact ⟨[], dp.reads_noAttributes registry, .nil⟩
  | some given =>
    obtain ⟨attrs, hreads, hsame⟩ :=
      dp.reads_attributes (hplain given rfl) (hdistinct given rfl) (hknown given rfl)
    refine ⟨attrs, ?_, hsame⟩
    rwa [attributeBytes, Option.map_some, Option.getD_some,
      if_neg (insertAttributes_ne_nil dp given)]

/-- Complete items are skipped. -/
theorem reads_items {n : Nat} {bs : Bytes} (h : Cbor.Items n bs) :
    Reads (dp.skipItems n) bs () := by
  obtain ⟨items, rfl, hitems, rfl⟩ := h
  induction items with
  | nil => exact .pure ()
  | cons item items ih =>
    obtain ⟨hitem, hrest⟩ := List.forall_mem_cons.mp hitems
    have hskip : Reads dp.skipItem item () := fun rest => dp.skipItem_item item rest hitem
    exact hskip.bind (ih hrest)

/-- A span is well formed, and no record. -/
theorem span_wellFormed {n : Nat} {items : Bytes} (hn : n = 7 ∨ n = 2) (h : Cbor.Items n items) :
    dp.WellFormed knownTypes (some registry) (dp.emitArray n ++ items) ∧
      dp.isRecord (dp.emitArray n ++ items) = false := by
  have hhead := dp.parseItemHead_array n items (by omega)
  have hskip : dp.skipItems n items = some ((), []) := by
    have hread := reads_items dp h []
    rwa [List.append_nil] at hread
  refine ⟨⟨{ Codec.Record.blank with severity := 0 }, ?_⟩, ?_⟩
  · rw [Codec.Primitives.decodeRecord, Codec.Parse.bind_of_eq hhead, if_neg (by simp),
      if_neg (by simp; omega), if_pos (by simp; omega), Codec.Parse.bind_of_eq hskip]
    rfl
  · rw [ContainerPrimitives.isRecord, hhead]
    simp
    omega

/-- What a file sink has written is read again. -/
theorem container_round_trip (w : Writer) (targetBufferSize : Nat) (hepoch : epoch.InRange)
    {args : Option AttributeArgs} (ops : List Backend.FileOp)
    (hplain : ∀ given ∈ args, ∀ attr ∈ given.attributes, attr.value.Plain)
    (hdistinct : ∀ given ∈ args, (given.attributes.map Codec.Attribute.id).Nodup)
    (hknown : ∀ given ∈ args, ∀ attr ∈ given.attributes,
      registry attr.id.toNat = some attr.value.kind)
    (hmessages : ∀ message ∈ ops.flatMap Backend.FileOp.batch,
      dp.WellFormed knownTypes (some registry) message) :
    ∃ s s' file container,
      (Backend.makeFile w targetBufferSize (attributeBytes dp args) epoch).bind
        (Runs.run (Backend.fileStep w) ops) = some s ∧
      Backend.finalizeFile w s = some s' ∧ s'.closed = [(0, file)] ∧
      dp.decodeContainer knownTypes (some registry) file = some (container, []) ∧
      Recounts dp knownTypes registry epoch args (ops.flatMap Backend.FileOp.batch) container := by
  obtain ⟨s, s', hrun, hfinalize, hclosed⟩ :=
    Backend.finalizeFile_run w targetBufferSize (attributeBytes dp args) epoch ops
  obtain ⟨attrs, hattrs, hsame⟩ := reads_attributeBytes dp hplain hdistinct hknown
  obtain ⟨records, hrecords⟩ := Codec.ContainerPrimitives.exists_records hmessages
  have hread := dp.reads_container hepoch hattrs hrecords []
  rw [List.append_nil] at hread
  exact ⟨s, s', _, _, hrun, hfinalize, hclosed, hread, rfl, hsame,
    Codec.ContainerPrimitives.records_filter hrecords⟩

/-- A sink with an attribute and a small buffer, a record, a span, and a `sync_output`. -/
theorem container_round_trip_sample :
    ∃ s s' file container,
      (Backend.makeFile Backend.plainWriter 7
        (attributeBytes Codec.plainContainers (some ⟨[⟨256, .uint64 99⟩], by decide⟩)) ⟨5, -7⟩).bind
        (Runs.run (Backend.fileStep Backend.plainWriter)
          [.messages [[0x86, 8, 0x80, 1, 0x60, 0x80, 0xa0]], .syncOutput,
            .messages [[0x82, 0x80, 2]]]) = some s ∧
      Backend.finalizeFile Backend.plainWriter s = some s' ∧ s'.closed = [(0, file)] ∧
      Codec.plainContainers.decodeContainer Kind.ofId (some fun _ => some .uint64) file =
        some (container, []) ∧
      Recounts Codec.plainContainers Kind.ofId (fun _ => some .uint64) ⟨5, -7⟩
        (some ⟨[⟨256, .uint64 99⟩], by decide⟩)
        [[0x86, 8, 0x80, 1, 0x60, 0x80, 0xa0], [0x82, 0x80, 2]] container := by
  refine container_round_trip Codec.plainContainers Backend.plainWriter 7 (by decide) _ ?_ ?_ ?_ ?_
  · rintro _ ⟨⟩ attr hattr
    cases List.mem_singleton.mp hattr
    trivial
  · rintro _ ⟨⟩
    exact List.pairwise_singleton _ _
  · rintro _ ⟨⟩ attr hattr
    cases List.mem_singleton.mp hattr
    rfl
  · intro message hmessage
    rcases List.mem_pair.mp hmessage with rfl | rfl
    · exact ⟨_, rfl⟩
    · exact ⟨_, rfl⟩

end

end Deeplog.Sink

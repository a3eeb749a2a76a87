import Deeplog.Bus.BufferBus
import Deeplog.Codec.Sent
import Deeplog.Sink.Lifecycle

/-!
# From a log statement to a file

Sources put records and span messages on a buffer bus, `retire_log_records` hands what is there to
the sinks of a fabric, and file sinks write containers, which a reader decodes. A record that has
been accepted is in the file of every sink that had been attached when it was retired and that
lets it pass, exactly once and in order, provided that `destroy_sink` has accepted the sink.
-/

namespace Deeplog.Pipeline

open Cbor (Bytes)
open Codec (Sent LogContext LogArgs SpanStartMsg SpanEndMsg SpanPrimitives Piece Kind Reified Record
  RecordContainer AttributeArgs)
open Sink (Backend Writer Epoch SinkBackend Fabric FabricOp FabricReply Deeppack)

/-! ## File sinks that can fail -/

/-- A file sink, and what its next calls run into: nothing, or a failure that leaves some state. -/
structure FileDevice where
  backend : Backend
  faults : List (Option Backend)

namespace FileDevice

def call (run : Backend → Option Backend) (device : FileDevice) : Bool × FileDevice :=
  match device.faults with
  | some left :: faults => (false, ⟨left, faults⟩)
  | faults =>
    match run device.backend with
    | some backend => (true, ⟨backend, faults.tail⟩)
    | none => (false, ⟨device.backend, faults.tail⟩)

def file (w : Writer) : SinkBackend FileDevice where
  bulkWrite bs := call fun backend => some (backend.put w bs)
  syncOutput := call (Backend.fileSyncOutput w)
  finalize := call (Backend.finalizeFile w)

theorem call_eq_true {run : Backend → Option Backend} {device device' : FileDevice}
    (h : device.call run = (true, device')) : run device.backend = some device'.backend := by
  unfold call at h
  split at h
  · cases h
  · split at h
    case h_1 hrun =>
      cases h
      exact hrun
    case h_2 => cases h

/-- A file sink whose calls have succeeded holds what it has been given. -/
theorem file_keeps (w : Writer) : Sink.Keeps (file w)
    (fun device bytes => device.backend.Contains bytes ∧ bytes ≠ [])
    (fun device bytes => device.backend.closed = [(0, bytes ++ [0xff])]) where
  bulkWrite {bytes bs device device'} h hwrite := by
    obtain ⟨hcontains, hne⟩ := h
    replace hwrite : device.call (fun backend => some (backend.put w bs)) = (true, device') :=
      hwrite
    have hput := call_eq_true hwrite
    have hwrote := hcontains.wrote (Backend.put_wrote w bs device.backend)
    rw [Option.some.inj hput] at hwrote
    exact ⟨hwrote, List.append_ne_nil_of_left_ne_nil hne _⟩
  syncOutput h hsync := by
    obtain ⟨s', hs', hcontains, -⟩ := h.1.fileSyncOutput (w := w) h.2
    cases hs'.symm.trans (call_eq_true hsync)
    exact ⟨hcontains, h.2⟩
  finalize h hfinalize := by
    obtain ⟨s', hs', hclosed⟩ := h.1.finalizeFile (w := w)
    cases hs'.symm.trans (call_eq_true hfinalize)
    exact hclosed

end FileDevice

/-! ## The system -/

/-- What lies outside: deeppack as sources, buses and fabrics use it, the writes to files, and how
much of a write that fails has been stored. -/
structure Environment where
  dp : SpanPrimitives
  deeppack : Deeppack
  heads : Bus.BinaryHeads
  writer : Writer
  partly : Bytes → Nat → Nat

/-- A `log_fabric` over a `bufferbus_handle`. -/
structure System where
  bus : Bus.System
  fabric : Fabric FileDevice

/-- What happens to a fabric. The threshold of `log` is that of its context, the timestamp comes
from the clock. -/
inductive Op where
  | log (threshold : Nat) (logCtx : LogContext) (args : LogArgs) (timeStamp : UInt64)
  | enqueueStart (msg : SpanStartMsg)
  | enqueueEnd (msg : SpanEndMsg)
  | retireLogRecords
  | sinks (op : FabricOp Bus.Errc FileDevice)
      (h : ∀ batches consumed, op ≠ .retireLogRecords batches consumed)

inductive Reply where
  | sent (ok : Bool)
  | fabric (reply : FabricReply Bus.Errc)

/-- The writes of a message, up to one that fails: whether there has been none, and what they have
left in the buffer. -/
def emitAll (partly : Bytes → Nat → Nat) (capacity : Nat) : List Piece → Bytes → Bool × Bytes
  | [], out => (true, out)
  | piece :: pieces, out =>
    match piece.emit partly capacity out with
    | some out => emitAll partly capacity pieces out
    | none => (false, out ++ piece.bytes.take (partly piece.bytes (capacity - out.length)))

/-- The stores to the message that was allocated as the `i`-th, from the offset `o` on. -/
def writes (i : Nat) : Nat → Bytes → List Bus.Op
  | _, [] => []
  | o, value :: values => .write i o value :: writes i (o + 1) values

namespace System

variable (env : Environment)

/-- An allocation, and the writes through the buffer that comes of it. -/
def send (m : Sent) (s : System) : Bool × System :=
  match s.bus.step env.heads (.allocate (UInt64.ofNat (m.msgSize env.dp))) with
  | (.allocated (.ok ()), bus) =>
    let i := bus.outputs.length - 1
    let capacity := (bus.outputs[i]?.map Bus.OutputBuffer.size).getD 0
    let (ok, stored) := emitAll env.partly capacity (m.pieces env.dp) []
    (ok, { s with bus := (Runs.replies (Bus.System.step env.heads) (writes i 0 stored) bus).2 })
  | (_, bus) => (false, { s with bus })

/-- What `consume_messages` passes on, its result, and the bus behind it. -/
def consume (s : System) : (List (List Bytes) × Except Bus.Errc Unit) × Bus.System :=
  let (result, bus) := s.bus.bus.consumeMessages env.heads
  (result, ⟨bus, []⟩)

def fabricStep (op : FabricOp Bus.Errc FileDevice) (s : System) : Reply × System :=
  let (reply, fabric) := s.fabric.step (FileDevice.file env.writer) env.deeppack op
  (.fabric reply, { s with fabric })

def step : Op → System → Reply × System
  | .log threshold logCtx args timeStamp, s =>
    if args.severity < threshold then (.sent true, s)
    else if args.severity = 0 then (.sent true, s)
    else if 24 < args.severity then (.sent false, s)
    else
      let (ok, s) := s.send env (.record logCtx args timeStamp)
      (.sent ok, s)
  | .enqueueStart msg, s =>
    let (ok, s) := s.send env (.spanStart msg)
    (.sent ok, s)
  | .enqueueEnd msg, s =>
    let (ok, s) := s.send env (.spanEnd msg)
    (.sent ok, s)
  | .retireLogRecords, s =>
    let ((batches, consumed), bus) := s.consume env
    { s with bus }.fabricStep env (.retireLogRecords batches consumed)
  | .sinks op _, s => s.fabricStep env op

end System

/-! ## What is sent -/

/-- The message that a call is about, unless a threshold keeps it back. -/
def Op.message : Op → Option Sent
  | .log threshold logCtx args timeStamp =>
    if args.severity < threshold ∨ args.severity = 0 then none
    else some (.record logCtx args timeStamp)
  | .enqueueStart msg => some (.spanStart msg)
  | .enqueueEnd msg => some (.spanEnd msg)
  | .retireLogRecords | .sinks _ _ => none

def Op.retires : Op → Bool
  | .retireLogRecords => true
  | _ => false

def Reply.accepted (op : Op) : Reply → List Sent
  | .sent true => op.message.toList
  | _ => []

namespace System

variable (env : Environment)

/-- The messages that are on the bus behind a step. -/
def pendingBehind (op : Op) (s : System) (pending : List Sent) : List Sent :=
  if op.retires then [] else pending ++ (s.step env op).1.accepted op

/-- What has been accepted and then been retired while a sink was in the fabric, in a run that
starts with messages on the bus. -/
def told (which : Nat) : List Op → System → List Sent → List Sent
  | [], _, _ => []
  | op :: ops, s, pending =>
    (if op.retires ∧ (Keyed.lookup Sink.SinkFrontend.id which s.fabric.sinks).isSome then pending
      else []) ++ told which ops (s.step env op).2 (s.pendingBehind env op pending)

end System

/-! ## A message on the bus -/

theorem emitAll_of_fits {partly : Bytes → Nat → Nat} {capacity : Nat} {pieces : List Piece}
    {out out' : Bytes} (h : pieces.foldlM (Piece.emit partly capacity) out = some out') :
    emitAll partly capacity pieces out = (true, out') := by
  induction pieces generalizing out with
  | nil =>
    cases h
    rfl
  | cons piece pieces ih =>
    rw [List.foldlM_cons] at h
    obtain ⟨mid, hmid, hrest⟩ := Option.bind_eq_some_iff.mp h
    rw [emitAll, hmid]
    exact ih hrest

/-- Stores one after the other overwrite a part of a message. -/
theorem writes_messages (heads : Bus.BinaryHeads) (capacity : Nat) (before : List Bytes)
    (message : Bytes) (o : Nat) (values : Bytes) (hlength : o + values.length ≤ message.length) :
    (Runs.replies (Bus.BoundedFifo.step heads) (writes before.length o values)
      ⟨capacity, before ++ [message]⟩).2 =
    ⟨capacity, before ++ [message.take o ++ values ++ message.drop (o + values.length)]⟩ := by
  induction values generalizing o message with
  | nil => simp [writes, Runs.replies]
  | cons value values ih =>
    rw [List.length_cons] at hlength
    have hmodify : (before ++ [message]).modify before.length (fun m => m.set o value) =
        before ++ [message.set o value] := by
      apply List.ext_getElem?
      grind
    rw [writes, Runs.replies]
    simp only [Bus.BoundedFifo.step, hmodify]
    rw [ih _ (o + 1) (by rw [List.length_set]; omega)]
    have htake : (message.set o value).take (o + 1) = message.take o ++ [value] := by
      apply List.ext_getElem?
      grind
    have hdrop : (message.set o value).drop (o + 1 + values.length) =
        message.drop (o + (values.length + 1)) := by
      apply List.ext_getElem?
      grind
    rw [htake, hdrop, List.length_cons]
    simp

/-- The messages on a bus are what has been sent, each with something behind it. -/
structure Carries (env : Environment) (knownTypes : Nat → Option Kind) (pending : List Sent)
    (bus : Bus.System) : Prop where
  valid : ∀ m ∈ pending, m.Valid env.dp knownTypes
  queue : ∃ q, Bus.Represents env.heads bus q ∧
    List.Forall₂ (fun m message => ∃ filler, message = m.bytes env.dp ++ filler) pending q.messages

section

variable {env : Environment} {knownTypes : Nat → Option Kind} {pending : List Sent} {m : Sent}

/-- A buffer that has been allocated is the last one, all of it null. -/
theorem writes_represents {bus : Bus.System} {q : Bus.BoundedFifo} {n : Nat} {values : Bytes}
    (h : Bus.Represents env.heads bus
      { q with messages := q.messages ++ [List.replicate n Bus.null] })
    (hlength : values.length ≤ n) :
    bus.outputs[bus.outputs.length - 1]?.map Bus.OutputBuffer.size = some n ∧
      Bus.Represents env.heads (Runs.replies (Bus.System.step env.heads)
        (writes (bus.outputs.length - 1) 0 values) bus).2
        { q with
          messages := q.messages ++ [values ++ List.replicate (n - values.length) Bus.null] } := by
  have hlast : bus.outputs.length - 1 = q.messages.length := by
    rw [h.length_outputs, List.length_append, List.length_singleton, Nat.add_sub_cancel]
  rw [hlast]
  constructor
  · rw [h.outputs_eq]
    simp
  · have hops : ∀ op ∈ writes q.messages.length 0 values, ∀ messageSize,
        op = .allocate messageSize → messageSize.toNat < 2 ^ 63 := by
      have hwrites : ∀ (i o : Nat) (values : Bytes), ∀ op ∈ writes i o values,
          ∃ i o value, op = .write i o value := by
        intro i o values
        induction values generalizing o with
        | nil => exact fun _ hop => absurd hop List.not_mem_nil
        | cons value values ih =>
          rintro op (_ | ⟨_, hop⟩)
          · exact ⟨i, o, value, rfl⟩
          · exact ih _ op hop
      intro op hop messageSize heq
      obtain ⟨i, o, value, rfl⟩ := hwrites _ _ _ op hop
      cases heq
    have hrun := (Runs.replies_refine Bus.step_refines hops h).2
    have hmessages := writes_messages env.heads q.capacity q.messages (List.replicate n Bus.null) 0
      values (by simpa using hlength)
    rw [hmessages] at hrun
    simpa using hrun

/-- A message that is refused leaves the bus as it was; one that is accepted is on it. -/
theorem send_carries (hm : m.Valid env.dp knownTypes) {s : System}
    (h : Carries env knownTypes pending s.bus) :
    (s.send env m).2.fabric = s.fabric ∧
      Carries env knownTypes (pending ++ if (s.send env m).1 then [m] else [])
        (s.send env m).2.bus := by
  obtain ⟨hvalid, q, hq, hpending⟩ := h
  obtain ⟨hfits, hsize⟩ := hm.fits
  have hmsgSize : (UInt64.ofNat (m.msgSize env.dp)).toNat = m.msgSize env.dp := by
    rw [UInt64.toNat_ofNat', Nat.mod_eq_of_lt (by omega)]
  have hstep := Bus.step_refines (.allocate (UInt64.ofNat (m.msgSize env.dp))) s.bus q
    (by rintro _ ⟨⟩; rwa [hmsgSize]) hq
  rw [System.send]
  rcases hbus : s.bus.step env.heads (.allocate (UInt64.ofNat (m.msgSize env.dp))) with ⟨reply, bus⟩
  rw [hbus] at hstep
  by_cases hspace : q.remaining env.heads < Bus.BoundedFifo.cost env.heads (m.msgSize env.dp)
  · simp only [Bus.BoundedFifo.step, hmsgSize, if_pos hspace] at hstep
    obtain ⟨rfl, hrepresents⟩ := hstep
    exact ⟨rfl, by simpa using hvalid, q, hrepresents, by simpa using hpending⟩
  · simp only [Bus.BoundedFifo.step, hmsgSize, if_neg hspace] at hstep
    obtain ⟨rfl, hrepresents⟩ := hstep
    obtain ⟨hcapacity, hwritten⟩ := writes_represents hrepresents hfits
    have hemit : (m.pieces env.dp).foldlM (Piece.emit env.partly (m.msgSize env.dp)) [] =
        some (m.bytes env.dp) := Codec.emit_of_fits hfits
    simp only [hcapacity, Option.getD_some, emitAll_of_fits hemit, if_true, true_and]
    refine ⟨?_, _, hwritten, ?_⟩
    · intro m' hm'
      rcases List.mem_append.mp hm' with hm' | hm'
      · exact hvalid m' hm'
      · rwa [List.mem_singleton.mp hm']
    · exact List.rel_append hpending (.cons ⟨_, rfl⟩ .nil)

/-- What is on the bus is what the fabric is told. -/
theorem consume_carries {s : System} (h : Carries env knownTypes pending s.bus) :
    ∃ batches, (s.consume env).1 = (batches, .ok ()) ∧
      Carries env knownTypes [] (s.consume env).2 ∧
      (batches.map fun records => (env.deeppack.preparseMessages records).2).flatten =
        pending.map (Sent.info env.dp) := by
  obtain ⟨hvalid, q, hq, hpending⟩ := h
  obtain ⟨hreply, hrepresents⟩ := Bus.step_consume hq
  rcases hconsume : s.bus.bus.consumeMessages env.heads with ⟨⟨batches, result⟩, bus⟩
  simp only [Bus.System.step, hconsume, Bus.BoundedFifo.step] at hreply hrepresents
  cases hreply
  refine ⟨q.messages.map ([·]), ?_, ⟨?_, { q with messages := [] }, ?_, .nil⟩, ?_⟩
  · simp only [System.consume, hconsume]
  · simp
  · simpa only [System.consume, hconsume] using hrepresents
  · clear hq hrepresents hconsume
    generalize q.messages = messages at hpending
    induction hpending with
    | nil => rfl
    | @cons m message pending messages hmessage _ ih =>
      obtain ⟨filler, rfl⟩ := hmessage
      obtain ⟨hm, hrest⟩ := List.forall_mem_cons.mp hvalid
      have hinfo := hm.preparsed env.deeppack filler
      simp only [List.map_cons, List.flatten_cons, Deeppack.preparseMessages, List.map_nil,
        hinfo, List.singleton_append]
      exact congrArg _ (ih hrest)

/-! ## Runs -/

/-- What a step means to the fabric. -/
def Op.onFabric (env : Environment) (s : System) : Op → List (FabricOp Bus.Errc FileDevice)
  | .retireLogRecords => [.retireLogRecords (s.consume env).1.1 (s.consume env).1.2]
  | .sinks op _ => [op]
  | .log _ _ _ _ | .enqueueStart _ | .enqueueEnd _ => []

def System.onFabric (env : Environment) : List Op → System → List (FabricOp Bus.Errc FileDevice)
  | [], _ => []
  | op :: ops, s => op.onFabric env s ++ onFabric env ops (s.step env op).2

/-- A call that is about a message sends it. -/
theorem step_of_message {op : Op} (hmessage : op.message = some m) (hm : m.Valid env.dp knownTypes)
    (s : System) : s.step env op = (.sent (s.send env m).1, (s.send env m).2) ∧
      op.retires = false ∧ op.onFabric env s = [] := by
  cases op with
  | log threshold logCtx args timeStamp =>
    simp only [Op.message] at hmessage
    split at hmessage
    · cases hmessage
    · rename_i hpasses
      obtain ⟨hthreshold, hzero⟩ := not_or.mp hpasses
      cases hmessage
      refine ⟨?_, rfl, rfl⟩
      rw [System.step, if_neg hthreshold, if_neg hzero, if_neg (Nat.not_lt.mpr hm.severity.2)]
  | enqueueStart msg | enqueueEnd msg =>
    cases hmessage
    exact ⟨rfl, rfl, rfl⟩
  | retireLogRecords | sinks op h => cases hmessage

theorem step_of_below (env : Environment) {threshold : Nat} {logCtx : LogContext} {args : LogArgs}
    {timeStamp : UInt64}
    (h : (Op.log threshold logCtx args timeStamp).message = none) (s : System) :
    s.step env (.log threshold logCtx args timeStamp) = (.sent true, s) := by
  simp only [Op.message] at h
  split at h
  case isTrue hbelow =>
    rw [System.step]
    grind
  case isFalse => cases h

/-- One step leaves what has been accepted on the bus, and the fabric as its own step does. -/
theorem step_carries {op : Op} (hop : ∀ m ∈ op.message, m.Valid env.dp knownTypes) {s : System}
    (h : Carries env knownTypes pending s.bus) (which : Nat) :
    Carries env knownTypes (s.pendingBehind env op pending) (s.step env op).2.bus ∧
      (s.step env op).2.fabric = (Runs.replies (Fabric.step (FileDevice.file env.writer)
        env.deeppack) (op.onFabric env s) s.fabric).2 ∧
      Fabric.seen (FileDevice.file env.writer) env.deeppack which (op.onFabric env s) s.fabric =
        (if op.retires ∧ (Keyed.lookup Sink.SinkFrontend.id which s.fabric.sinks).isSome
          then pending
          else []).map (Sent.info env.dp) := by
  cases hmessage : op.message with
  | some m =>
    have hm := hop m hmessage
    obtain ⟨hstep, hretires, hnone⟩ := step_of_message hmessage hm s
    obtain ⟨hfabric, hcarries⟩ := send_carries hm h
    have haccepted : (Reply.sent (s.send env m).1).accepted op =
        if (s.send env m).1 then [m] else [] := by
      cases (s.send env m).1 with
      | true => rw [Reply.accepted, hmessage]; rfl
      | false => rfl
    simp only [System.pendingBehind, hstep, hretires, hnone, haccepted]
    exact ⟨hcarries, hfabric, rfl⟩
  | none =>
    cases op with
    | log threshold logCtx args timeStamp =>
      have hstep := step_of_below env hmessage s
      simp only [System.pendingBehind, hstep, Op.retires, Reply.accepted, hmessage,
        Option.toList_none, List.append_nil]
      exact ⟨h, rfl, rfl⟩
    | enqueueStart msg | enqueueEnd msg => cases hmessage
    | retireLogRecords =>
      obtain ⟨batches, hconsume, hcarries, hmessages⟩ := consume_carries h
      refine ⟨hcarries, rfl, ?_⟩
      simp only [Op.onFabric, hconsume, Fabric.seen, FabricOp.messages, hmessages, Op.retires,
        List.append_nil, true_and]
      split
      · rfl
      · rfl
    | sinks op hother =>
      refine ⟨?_, rfl, ?_⟩
      · simpa [System.pendingBehind, Op.retires, System.step, System.fabricStep,
          Reply.accepted] using h
      · have hnone : op.messages env.deeppack = [] := by
          cases op with
          | retireLogRecords batches consumed => exact absurd rfl (hother batches consumed)
          | _ => rfl
        simp only [Op.onFabric, Fabric.seen, hnone, ite_self, Op.retires]
        rfl

/-- A run is one of the fabric, in which a sink is given what it is told. -/
theorem run_carries {ops : List Op} (hops : ∀ op ∈ ops, ∀ m ∈ op.message, m.Valid env.dp knownTypes)
    {s : System} (h : Carries env knownTypes pending s.bus) (which : Nat) :
    (Runs.replies (System.step env) ops s).2.fabric = (Runs.replies (Fabric.step
        (FileDevice.file env.writer) env.deeppack) (s.onFabric env ops) s.fabric).2 ∧
      Fabric.seen (FileDevice.file env.writer) env.deeppack which (s.onFabric env ops) s.fabric =
        (s.told env which ops pending).map (Sent.info env.dp) ∧
      ∀ m ∈ s.told env which ops pending, m.Valid env.dp knownTypes := by
  induction ops generalizing s pending with
  | nil => exact ⟨rfl, rfl, fun m hm => absurd hm List.not_mem_nil⟩
  | cons op ops ih =>
    obtain ⟨hop, hops⟩ := List.forall_mem_cons.mp hops
    obtain ⟨hcarries, hfabric, hseen⟩ := step_carries hop h which
    obtain ⟨hrun, htold, hvalid⟩ := ih hops hcarries
    rw [hfabric] at hrun htold
    refine ⟨?_, ?_, ?_⟩
    · rw [System.onFabric, Runs.replies_append]
      exact hrun
    · rw [System.onFabric, Fabric.seen_append, hseen, htold, System.told, List.map_append]
    · intro m hm
      rcases List.mem_append.mp hm with hm | hm
      · split at hm
        · exact h.valid m hm
        · cases hm
      · exact hvalid m hm

theorem mem_onFabric {ops : List Op} {s : System} {op : FabricOp Bus.Errc FileDevice}
    (h : op ∈ s.onFabric env ops) :
    (∃ batches consumed, op = .retireLogRecords batches consumed) ∨ ∃ hop, .sinks op hop ∈ ops := by
  induction ops generalizing s with
  | nil => cases h
  | cons first ops ih =>
    rcases List.mem_append.mp h with h | h
    · cases first with
      | retireLogRecords => exact .inl ⟨_, _, List.mem_singleton.mp h⟩
      | sinks other hother =>
        obtain rfl := List.mem_singleton.mp h
        exact .inr ⟨hother, List.mem_cons_self⟩
      | log threshold logCtx args timeStamp => cases h
      | enqueueStart msg | enqueueEnd msg => cases h
    · rcases ih h with hretired | ⟨hop, hmem⟩
      · exact .inl hretired
      · exact .inr ⟨hop, List.mem_cons_of_mem _ hmem⟩

end

/-! ## What a reader finds -/

/-- Attributes of a sink that its reader knows. -/
structure Known (registry : Nat → Option Kind) (args : AttributeArgs) : Prop where
  plain : ∀ attr ∈ args.attributes, attr.value.Plain
  distinct : (args.attributes.map Codec.Attribute.id).Nodup
  known : ∀ attr ∈ args.attributes, registry attr.id.toNat = some attr.value.kind

/-- A container tells of its epoch, its attributes, and of every record that has been sent. -/
structure Chronicles (epoch : Epoch) (args : Option AttributeArgs) (messages : List Sent)
    (container : RecordContainer) : Prop where
  epoch : container.epoch = epoch
  attributes : List.Forall₂ (fun attr revived => revived.1 = attr.id.toNat ∧
    attr.value.Same (none, revived.2)) ((args.map AttributeArgs.attributes).getD [])
    container.attributes
  records : List.Forall₂ (fun sent (r : Record) => r.Tells sent.1 sent.2.1 sent.2.2)
    (messages.filterMap Sent.toRecord) container.records

/-- Messages that have been written between a header and a break are read again. -/
theorem chronicles {dp : SpanPrimitives} {knownTypes registry : Nat → Option Kind}
    {args : Option AttributeArgs} {epoch : Epoch} {messages : List Sent}
    (hfile : registry 2 = some .string) (hline : registry 3 = some .uint64)
    (hargs : ∀ given ∈ args, Known registry given) (hepoch : epoch.InRange)
    (hvalid : ∀ m ∈ messages, m.Valid dp knownTypes) :
    ∃ container, dp.decodeContainer knownTypes (some registry)
        (Backend.header epoch (Sink.attributeBytes dp.toContainerPrimitives args) ++
          (messages.map (Sent.bytes dp)).flatten ++ [0xff]) = some (container, []) ∧
      Chronicles epoch args messages container := by
  obtain ⟨attrs, hattrs, hsame⟩ := Sink.reads_attributeBytes dp.toContainerPrimitives
    (fun given hgiven => (hargs given hgiven).plain)
    (fun given hgiven => (hargs given hgiven).distinct)
    (fun given hgiven => (hargs given hgiven).known)
  have hwellFormed : ∀ message ∈ messages.map (Sent.bytes dp),
      dp.WellFormed knownTypes (some registry) message := by
    intro message hmessage
    obtain ⟨m, hm, rfl⟩ := List.mem_map.mp hmessage
    exact ((hvalid m hm).decoded hfile hline).1
  obtain ⟨records, hrecords⟩ := Codec.ContainerPrimitives.exists_records hwellFormed
  have hread := dp.reads_container hepoch hattrs hrecords []
  rw [List.append_nil] at hread
  exact ⟨_, hread, rfl, hsame,
    Sent.forall₂_tells hvalid hfile hline (Codec.ContainerPrimitives.records_filter hrecords)⟩

/-- What a sink has seen until `destroy_sink` has accepted it is in its file. -/
theorem seen_arrives (env : Environment) {knownTypes registry : Nat → Option Kind}
    (hfile : registry 2 = some .string) (hline : registry 3 = some .uint64) {which : Nat}
    {fabricOps : List (FabricOp Bus.Errc FileDevice)} {told : List Sent}
    (hseen : Fabric.seen (FileDevice.file env.writer) env.deeppack which fabricOps .init =
      told.map (Sent.info env.dp)) (hvalid : ∀ m ∈ told, m.Valid env.dp knownTypes)
    (hclear : .clearLastStatus which ∉ fabricOps) {fabric : Fabric FileDevice}
    (hfabric : (Runs.replies (Fabric.step (FileDevice.file env.writer) env.deeppack) fabricOps
      .init).2 = fabric) {sink : Sink.SinkFrontend FileDevice}
    (hsink : fabric.others which = some (.destroyed, sink)) : ∃ threshold device,
      fabric.created[which]? = some (threshold, device) ∧
      ∀ targetBufferSize args epoch, Backend.makeFile env.writer targetBufferSize
          (Sink.attributeBytes env.dp.toContainerPrimitives args) epoch = some device.backend →
        (∀ given ∈ args, Known registry given) → epoch.InRange → ∃ file container,
          sink.backend.backend.closed = [(0, file)] ∧
          env.dp.decodeContainer knownTypes (some registry) file = some (container, []) ∧
          Chronicles epoch args (told.filter (Sent.passes threshold)) container := by
  have hnone : Sink.Registry.Told (fun (device : FileDevice) bytes =>
      device.backend.Contains bytes ∧ bytes ≠ [])
      (fun device bytes => device.backend.closed = [(0, bytes ++ [0xff])]) which []
      (Fabric.init : Fabric FileDevice).created none :=
    ⟨fun _ => rfl, fun _ _ h => (by cases h), fun _ h => (by cases h)⟩
  obtain ⟨hplaced, htold⟩ := Fabric.run_told env.deeppack (FileDevice.file_keeps env.writer) hclear
    .init hnone
  rw [List.nil_append, hseen] at htold
  rw [hfabric] at hplaced htold
  obtain ⟨threshold, device, hcreated, hfinished⟩ :=
    htold.destroyed sink ((hplaced.others_iff (by decide)).mp hsink)
  refine ⟨threshold, device, hcreated, fun targetBufferSize args epoch hmake hargs hepoch => ?_⟩
  obtain ⟨made, hmade, hcontains⟩ := Backend.makeFile_contains (w := env.writer) targetBufferSize
    (Sink.attributeBytes env.dp.toContainerPrimitives args) epoch
  cases hmade.symm.trans hmake
  have hclosed := hfinished _ ⟨hcontains, Backend.header_ne_nil epoch _⟩
  rw [Sent.passed_infos] at hclosed
  have hpassed : ∀ m ∈ told.filter (Sent.passes threshold), m.Valid env.dp knownTypes :=
    fun m hm => hvalid m (List.mem_filter.mp hm).1
  obtain ⟨container, hcontainer, hchronicles⟩ :=
    chronicles hfile hline hargs hepoch hpassed
  exact ⟨_, container, hclosed, hcontainer, hchronicles⟩

/-- Whatever is logged, retired and done to sinks on a bus, in whatever order, and wherever files
fail: the file of a sink that `destroy_sink` has accepted is a container which tells of each record
that `log` has accepted and that was retired while the sink was attached, up to its threshold, and
of nothing else. -/
theorem logged_records_arrive (env : Environment) {truncate : UInt64 → Except Bus.Errc UInt64}
    {bufferSize : UInt64} {bus : Bus.BufferbusHandle}
    (hbus : Bus.bufferbus truncate bufferSize = .ok bus) {knownTypes registry : Nat → Option Kind}
    (hfile : registry 2 = some .string) (hline : registry 3 = some .uint64) (ops : List Op)
    (hops : ∀ op ∈ ops, ∀ m ∈ op.message, m.Valid env.dp knownTypes) (which : Nat)
    (hstatus : ∀ h, .sinks (.clearLastStatus which) h ∉ ops) (sink : Sink.SinkFrontend FileDevice) :
    let start : System := ⟨⟨bus, []⟩, .init⟩
    let fabric := (Runs.replies (System.step env) ops start).2.fabric
    fabric.others which = some (.destroyed, sink) → ∃ threshold device,
      fabric.created[which]? = some (threshold, device) ∧
      ∀ targetBufferSize args epoch, Backend.makeFile env.writer targetBufferSize
          (Sink.attributeBytes env.dp.toContainerPrimitives args) epoch = some device.backend →
        (∀ given ∈ args, Known registry given) → epoch.InRange → ∃ file container,
          sink.backend.backend.closed = [(0, file)] ∧
          env.dp.decodeContainer knownTypes (some registry) file = some (container, []) ∧
          Chronicles epoch args ((start.told env which ops []).filter (Sent.passes threshold))
            container := by
  intro start fabric hsink
  have hstart : Carries env knownTypes [] start.bus :=
    ⟨fun m hm => absurd hm List.not_mem_nil, _, Bus.represents_bufferbus hbus, .nil⟩
  obtain ⟨hrun, hseen, hvalid⟩ := run_carries hops hstart which
  have hclear : .clearLastStatus which ∉ start.onFabric env ops := by
    intro hmem
    rcases mem_onFabric hmem with ⟨_, _, hretired⟩ | ⟨hop, hmem⟩
    · cases hretired
    · exact hstatus hop hmem
  exact seen_arrives env hfile hline hseen hvalid hclear hrun.symm hsink

/-! ## Sample -/

def sampleEnvironment : Environment where
  dp := Codec.plainSpans
  deeppack := .ofCbor
  heads := .plain
  writer := Backend.plainWriter
  partly _ _ := 0

/-- A file sink with a small buffer. -/
def sampleDevice : FileDevice where
  backend := (Backend.makeFile Backend.plainWriter 7 [] ⟨5, -7⟩).get rfl
  faults := []

/-- A warning in a span, which is closed afterwards. -/
def sampleOps : List Op :=
  [.sinks (.createSink 9 sampleDevice true) (by rintro _ _ ⟨⟩),
    .log 5 Codec.sampleContext (Codec.sampleArgs 5) 1000,
    .enqueueEnd ⟨Codec.sampleContext.span, 2000⟩,
    .retireLogRecords, .sinks (.destroySink 0) (by rintro _ _ ⟨⟩)]

def sampleRegistry (id : Nat) : Option Kind := if id = 2 then some .string else some .uint64

theorem sampleArgs_nonNegative : ∀ value ∈ (Codec.sampleArgs 5).arguments, value.NonNegative := by
  simp [Codec.sampleArgs, Codec.Loggable.NonNegative]

theorem sampleOps_made (s : System) :
    (s.onFabric sampleEnvironment sampleOps).flatMap FabricOp.made = [(9, sampleDevice)] := by
  simp [sampleOps, System.onFabric, Op.onFabric, FabricOp.made]

theorem logged_records_arrive_sample : ∃ bus sink file container,
    Bus.bufferbus .ok 256 = .ok bus ∧
    (Runs.replies (System.step sampleEnvironment) sampleOps ⟨⟨bus, []⟩, .init⟩).2.fabric.others 0 =
      some (.destroyed, sink) ∧
    sink.backend.backend.closed = [(0, file)] ∧
    Codec.plainSpans.decodeContainer Kind.ofId (some sampleRegistry) file = some (container, []) ∧
    Chronicles ⟨5, -7⟩ none ((System.told sampleEnvironment 0 sampleOps
      ⟨⟨bus, []⟩, .init⟩ []).filter (Sent.passes 9)) container := by
  obtain ⟨bus, hbus⟩ : ∃ bus, Bus.bufferbus .ok 256 = .ok bus := ⟨_, rfl⟩
  have hentry : ((Bus.bufferbus .ok 256).toOption.bind fun bus =>
      ((Runs.replies (System.step sampleEnvironment) sampleOps ⟨⟨bus, []⟩, .init⟩).2.fabric.others
        0).map Prod.fst) = some .destroyed := by decide +kernel
  simp only [hbus, Except.toOption, Option.bind_some] at hentry
  obtain ⟨⟨_, sink⟩, hsink, rfl⟩ := Option.map_eq_some_iff.mp hentry
  have hvalid : ∀ op ∈ sampleOps, ∀ m ∈ op.message, m.Valid sampleEnvironment.dp Kind.ofId := by
    intro op hop m hm
    simp only [sampleOps, List.mem_cons, List.not_mem_nil, or_false] at hop
    rcases hop with rfl | rfl | rfl | rfl | rfl
    · cases hm
    · cases hm
      exact ⟨by decide, by decide, by decide, by decide, sampleArgs_nonNegative,
        fun value _ => value.kind.ofId_id⟩
    · cases hm
      trivial
    · cases hm
    · cases hm
  have hstart : Carries sampleEnvironment Kind.ofId [] ⟨bus, []⟩ :=
    ⟨fun m hm => absurd hm List.not_mem_nil, _, Bus.represents_bufferbus hbus, .nil⟩
  have hrun := (run_carries hvalid (s := ⟨⟨bus, []⟩, .init⟩) hstart 0).1
  dsimp only at hrun
  have hcreated := Fabric.created_replies (FileDevice.file sampleEnvironment.writer)
    sampleEnvironment.deeppack (System.onFabric sampleEnvironment sampleOps ⟨⟨bus, []⟩, .init⟩)
  rw [sampleOps_made, ← hrun] at hcreated
  have harrive := logged_records_arrive sampleEnvironment hbus
    (show sampleRegistry 2 = some .string from rfl) rfl sampleOps hvalid 0
    (by rintro _ hmem; simp [sampleOps] at hmem) sink
  obtain ⟨threshold, device, hmade, hfile⟩ := harrive hsink
  rw [hcreated] at hmade
  cases hmade
  obtain ⟨file, container, hclosed, hread, htold⟩ :=
    hfile 7 none ⟨5, -7⟩ (by rfl) (by simp) (by decide)
  exact ⟨bus, sink, file, container, hbus, hsink, hclosed, hread, htold⟩

end Deeplog.Pipeline

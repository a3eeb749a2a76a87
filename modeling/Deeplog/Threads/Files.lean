import Deeplog.Sink.Healthy
import Deeplog.Threads.Logging

/-!
# Threads and their files

What a file tells in the end of the messages that threads have logged. Where files fail, a sink
that `destroy_sink` accepts tells of what was passed on while it was attached. Where they do not,
one that has been there from the start tells of every message that no thread has left behind.
-/

namespace Deeplog.Threads.Logging

open Cbor (Bytes)
open Codec (Sent Kind)
open Mpsc (Handle WholeBus)
open Pipeline (Environment FileDevice Known Chronicles)
open Sink (Backend Fabric FabricOp Writer Answers)

/-! ## File sinks that do not fail -/

/-- A file sink none of whose calls fails. -/
structure Untroubled (device : FileDevice) : Prop where
  faults : device.faults = []
  contains : ∃ bytes, device.backend.Contains bytes ∧ bytes ≠ []

theorem call_untroubled {device : FileDevice} (h : Untroubled device)
    {run : Backend → Option Backend} {backend : Backend}
    (hrun : run device.backend = some backend) :
    device.call run = (true, ⟨backend, []⟩) := by
  simp only [FileDevice.call, h.faults, hrun, List.tail_nil]

theorem file_answers (w : Writer) : Answers (FileDevice.file w) Untroubled where
  bulkWrite {device} bs h := by
    obtain ⟨bytes, hcontains, hne⟩ := h.contains
    have hwrote := hcontains.wrote (Backend.put_wrote w bs device.backend)
    have hput : device.call (fun backend => some (backend.put w bs)) =
        (true, ⟨device.backend.put w bs, []⟩) := call_untroubled h rfl
    exact ⟨_, hput, rfl, _, hwrote, List.append_ne_nil_of_left_ne_nil hne _⟩
  syncOutput {device} h := by
    obtain ⟨bytes, hcontains, hne⟩ := h.contains
    obtain ⟨s', hs', hcontains', -⟩ := hcontains.fileSyncOutput (w := w) hne
    exact ⟨_, call_untroubled h hs', rfl, bytes, hcontains', hne⟩
  finalize {device} h := by
    obtain ⟨bytes, hcontains, -⟩ := h.contains
    obtain ⟨s', hs', -⟩ := hcontains.finalizeFile (w := w)
    exact ⟨_, call_untroubled h hs'⟩

/-- `create_sink` -/
def create (threshold : Nat) (device : FileDevice) : Op :=
  .sinks (.createSink threshold device true) (by rintro _ _ ⟨⟩)

/-- `destroy_sink` -/
def destroy (which : Nat) : Op := .sinks (.destroySink which) (by rintro _ _ ⟨⟩)

/-- A step that may take a sink away. -/
def Op.Takes (which : Nat) : Op → Prop
  | .sinks op _ => op.Takes which
  | .threads _ _ | .retire => False

section Serve

variable {env : Environment} {knownTypes : Nat → Option Kind} {self : Handle} {file : File}
  {s s' : Logging} {op : Op} {ops : List Op} {which : Nat}

theorem serves_step (hfit : WholeBus.Fit self file) (hvalid : op.Valid env knownTypes)
    (hfresh : op.Fresh env self s) (htakes : ¬op.Takes which)
    (hgathered : s.Gathered env knownTypes self file) (h : s.fabric.Serves Untroubled which)
    (hs : s.step env self op = some s') : s'.fabric.Serves Untroubled which := by
  rw [(hgathered.step hfit hvalid hfresh hs).2]
  apply h.run (file_answers env.writer)
  intro fabricOp hmem
  cases op with
  | sinks inner hinner =>
    obtain rfl := List.mem_singleton.mp hmem
    exact htakes
  | threads inner hinner | retire =>
    obtain ⟨last, -, rfl⟩ := List.mem_map.mp hmem
    exact fun htaken => htaken

/-- A sink whose file does not fail is there as long as nobody takes it away. -/
theorem serves_run (hfit : WholeBus.Fit self file)
    (hops : ∀ op ∈ ops, op.Valid env knownTypes ∧ ¬op.Takes which)
    (hfresh : Runs.Along (Logging.step env self) (Op.Fresh env self) ops s)
    (hgathered : s.Gathered env knownTypes self file) (h : s.fabric.Serves Untroubled which)
    (hrun : s.run env self ops = some s') :
    Runs.Along (Logging.step env self) (Attached env self which) ops s ∧
      s'.Gathered env knownTypes self file ∧ s'.fabric.Serves Untroubled which := by
  have hstep : ∀ (op : Op) (t t' : Logging),
      (op.Valid env knownTypes ∧ ¬op.Takes which) ∧ op.Fresh env self t →
      t.Gathered env knownTypes self file ∧ t.fabric.Serves Untroubled which →
      t.step env self op = some t' →
      t'.Gathered env knownTypes self file ∧ t'.fabric.Serves Untroubled which := by
    rintro op t t' ⟨⟨hvalid, htakes⟩, hfresh⟩ ⟨hgathered, h⟩ hs
    exact ⟨(hgathered.step hfit hvalid hfresh hs).1,
      serves_step hfit hvalid hfresh htakes hgathered h hs⟩
  have hcond := hfresh.and_forall hops
  have hthere := hcond.holds hstep ⟨hgathered, h⟩
  have hend := Runs.invariant hstep hcond ⟨hgathered, h⟩ hrun
  exact ⟨hthere.imp fun _ _ ht _ => ht.2.attached, hend⟩

/-- A call of `retire_log_records` in which nobody else takes a step. -/
theorem run_retire {k : Nat} {system : System}
    (h : s.system.run env.dp env.partly self (List.replicate k .consume) = some system) :
    ∃ s', s.run env self (List.replicate k .retire) = some s' ∧ s'.system = system := by
  induction k generalizing s with
  | zero =>
    cases h
    exact ⟨s, rfl, rfl⟩
  | succ k ih =>
    obtain ⟨system₁, hstep, hrest⟩ := Runs.run_cons_eq_some.mp h
    obtain ⟨s₁, hs₁⟩ : ∃ s₁, s.step env self .retire = some s₁ := by
      rw [Logging.step, hstep]
      exact ⟨_, rfl⟩
    have hsystem : s.system.step env.dp env.partly self .consume = some s₁.system :=
      step_onSystem hs₁
    cases hstep.symm.trans hsystem
    obtain ⟨s', hs', hend⟩ := ih hrest
    exact ⟨s', Runs.run_cons_eq_some.mpr ⟨s₁, hs₁, hs'⟩, hend⟩

theorem retire_fresh (k : Nat) : Runs.Along (Logging.step env self) (Op.Fresh env self)
    (List.replicate k .retire) s := by
  refine Runs.Along.of_forall fun op hop t => ?_
  rw [List.eq_of_mem_replicate hop]
  rintro _ ⟨⟩ _ ⟨⟩
  trivial

theorem retire_steady (k : Nat) :
    ∀ op ∈ List.replicate k Op.retire, op.Valid env knownTypes ∧ ¬op.Takes which := by
  intro op hop
  rw [List.eq_of_mem_replicate hop]
  refine ⟨?_, fun htaken => htaken⟩
  rintro _ ⟨⟩ _ ⟨⟩

end Serve

section Created

variable (env : Environment) {codec : Mpsc.InfoCodec} {clockEpoch : Mpsc.ClockEpoch}
  {backing : Mpsc.Backing} {numRegions regionSize : UInt32} {lockState : Mpsc.LockKind}
  {self : Handle} {file : File} {knownTypes : Nat → Option Kind} {ops : List Op} {s : Logging}
  (h : Mpsc.mpscBus codec clockEpoch backing numRegions regionSize lockState = .ok (self, file))
include h

theorem start_gathered : (Logging.start file).Gathered env knownTypes self file :=
  ⟨start_ok h, rfl, fun _ hm => absurd hm List.not_mem_nil⟩

variable (hsize : regionSize.toNat ≤ 0xe0000000)
  (hvalid : ∀ op ∈ ops, op.Valid env knownTypes)
  (hfresh : Runs.Along (Logging.step env self) (Op.Fresh env self) ops (.start file))
  (hrun : (Logging.start file).run env self ops = some s)
  (hidle : s.system.bus.reading = none)
include hsize hvalid hfresh hrun hidle

/-- A call of `retire_log_records` that nobody interrupts passes on what no thread holds back. -/
theorem retire_drains : ∃ k s', s.run env self (List.replicate k .retire) = some s' ∧
    s'.system.bus.reading = none ∧ s'.system.sent = s.system.sent ∧
    ∀ r < self.numRegions.toNat, ∀ i < (s.system.sent r).length,
      (∀ j ≤ i, ¬s.system.Held r j) → i < (s'.system.bus.parties r).delivered.length := by
  obtain ⟨hsystem, hsystemFresh⟩ := run_onSystem hfresh hrun
  have hsystemValid : ∀ inner ∈ ops.filterMap Op.onSystem,
      ∀ m ∈ inner.message, m.Valid env.dp knownTypes := by
    intro inner hinner m hm
    obtain ⟨op, hop, honSystem⟩ := List.mem_filterMap.mp hinner
    exact hvalid op hop inner honSystem m hm
  obtain ⟨k, system, hconsume, hend⟩ :=
    consume_drains h hsize hsystemValid hsystemFresh hsystem hidle
  obtain ⟨s', hretire, rfl⟩ := run_retire hconsume
  exact ⟨k, s', hretire, hend⟩

/-- Between two calls, a sink that has always been there has been told of what has been passed
on. -/
theorem told_attached {which r : Nat} (hr : r < self.numRegions.toNat)
    (hattached : Runs.Along (Logging.step env self) (Attached env self which) ops (.start file)) :
    ofRegion r ((Logging.start file).told env self which ops) = s.system.passedOn r := by
  have hfit := Mpsc.mpscBus_fit h hsize
  have hstart : (Logging.start file).Gathered env knownTypes self file := start_gathered env h
  have horder : InOrder r 0 (Logging.start file) := ⟨Nat.zero_le _, rfl⟩
  obtain ⟨base, -, hend, -, -, htold⟩ := horder.run hfit hr hvalid hfresh hstart hrun which
  have hnothing := idle_run (fun _ => rfl) hrun hidle
  have hlast := hend.gathered
  rw [hnothing] at hlast
  have hbase := List.drop_eq_nil_iff.mp hlast.symm
  rw [System.passedOn, List.length_take] at hbase
  have hle := hend.base_le
  rw [htold hattached, List.drop_zero, System.passedOn, List.take_eq_take_iff]
  omega

end Created

section Destroyed

variable (env : Environment) {codec : Mpsc.InfoCodec} {clockEpoch : Mpsc.ClockEpoch}
  {backing : Mpsc.Backing} {numRegions regionSize : UInt32} {lockState : Mpsc.LockKind}
  {self : Handle} {file : File} {knownTypes : Nat → Option Kind} {ops : List Op} {s : Logging}
  {threshold : Nat} {device : FileDevice}
  (h : Mpsc.mpscBus codec clockEpoch backing numRegions regionSize lockState = .ok (self, file))
  (hsize : regionSize.toNat ≤ 0xe0000000)
  (hthreshold : threshold < Sink.disableThreshold) (hdevice : Untroubled device)
  (hops : ∀ op ∈ ops, op.Valid env knownTypes ∧ ¬op.Takes 0)
  (hfresh : Runs.Along (Logging.step env self) (Op.Fresh env self)
    (create threshold device :: ops) (.start file))
  (hrun : (Logging.start file).run env self (create threshold device :: ops) = some s)
include h hsize hthreshold hdevice hops hfresh hrun

/-- A sink that is created first is there until somebody takes it away. -/
theorem created_serves :
    Runs.Along (Logging.step env self) (Attached env self 0) (create threshold device :: ops)
      (.start file) ∧ s.fabric.Serves Untroubled 0 := by
  have hfit := Mpsc.mpscBus_fit h hsize
  have hcreate : (create threshold device).Valid env knownTypes := by
    rintro _ ⟨⟩
  obtain ⟨s₀, hs₀, hrest⟩ := Runs.run_cons_eq_some.mp hrun
  have hgathered := ((start_gathered env h).step hfit hcreate hfresh.1 hs₀).1
  have hserves : s₀.fabric.Serves Untroubled 0 := by
    cases hs₀
    exact Fabric.serves_createSink (ε := Bus.Errc) .init hthreshold hdevice
  obtain ⟨hattached, -, hend⟩ :=
    serves_run hfit hops (hfresh.2 s₀ hs₀) hgathered hserves hrest
  refine ⟨⟨fun hended => (by cases hended), fun t ht => ?_⟩, hend⟩
  cases hs₀.symm.trans ht
  exact hattached

omit hthreshold hdevice hops in
theorem created_first
    (hvalid : ∀ op ∈ create threshold device :: ops, op.Valid env knownTypes) :
    s.fabric.created[0]? = some (threshold, device) := by
  obtain ⟨hfabric, -⟩ :=
    (start_gathered env h).run (Mpsc.mpscBus_fit h hsize) hvalid hfresh hrun 0
  rw [hfabric]
  exact (congrArg (fun created => created[0]?) (Fabric.created_replies ..)).trans rfl

/-- When one more call of `retire_log_records` has ended, `destroy_sink` accepts the sink, which has
been told of everything that no thread held back before. -/
theorem destroyed_complete (hidle : s.system.bus.reading = none) : ∃ k s' sink,
    let rest := List.replicate k .retire ++ [destroy 0]
    let all := create threshold device :: ops ++ rest
    s.run env self rest = some s' ∧
    Runs.Along (Logging.step env self) (Op.Fresh env self) all (.start file) ∧
    (∀ op ∈ all, op.Valid env knownTypes) ∧ s'.fabric.others 0 = some (.destroyed, sink) ∧
    ∀ r < self.numRegions.toNat,
      ofRegion r ((Logging.start file).told env self 0 all) <+: s.system.sent r ∧
      ∀ i < (s.system.sent r).length, (∀ j ≤ i, ¬s.system.Held r j) →
        i < (ofRegion r ((Logging.start file).told env self 0 all)).length := by
  have hvalid : ∀ op ∈ create threshold device :: ops, op.Valid env knownTypes := by
    intro op hop
    rcases List.mem_cons.mp hop with rfl | hop
    · rintro _ ⟨⟩
    · exact (hops op hop).1
  obtain ⟨k, s₁, hretire, hidle₁, hsent, hdue⟩ :=
    retire_drains env h hsize hvalid hfresh hrun hidle
  have hops₁ : ∀ op ∈ ops ++ List.replicate k .retire, op.Valid env knownTypes ∧ ¬op.Takes 0 :=
    fun op hop => (List.mem_append.mp hop).elim (hops op) (retire_steady k op)
  have hrun₁ : (Logging.start file).run env self
      (create threshold device :: (ops ++ List.replicate k .retire)) = some s₁ :=
    (Runs.run_append hrun).trans hretire
  have hfresh₁ : Runs.Along (Logging.step env self) (Op.Fresh env self)
      (create threshold device :: (ops ++ List.replicate k .retire)) (.start file) :=
    hfresh.trans hrun (retire_fresh k)
  obtain ⟨hattached, hserves⟩ :=
    created_serves env h hsize hthreshold hdevice hops₁ hfresh₁ hrun₁
  obtain ⟨sink, hsink⟩ := hserves.destroySink (ε := Bus.Errc) (file_answers env.writer)
  have hdestroy : s₁.run env self [destroy 0] = some (s₁.fabricStep env (.destroySink 0)) := by
    simp only [Logging.run, Runs.run, Logging.step, destroy, hidle₁, Option.bind_some]
  set all := create threshold device :: ops ++ (List.replicate k .retire ++ [destroy 0]) with hall
  have hsplit : all = create threshold device :: (ops ++ List.replicate k .retire) ++
      [destroy 0] := by simp [hall]
  have hrunAll : (Logging.start file).run env self all =
      some (s₁.fabricStep env (.destroySink 0)) := by
    rw [hsplit]
    exact (Runs.run_append hrun₁).trans hdestroy
  have hfreshAll : Runs.Along (Logging.step env self) (Op.Fresh env self) all (.start file) := by
    rw [hsplit]
    exact hfresh₁.trans hrun₁ ⟨by rintro _ ⟨⟩, fun _ _ => trivial⟩
  have hattachedAll : Runs.Along (Logging.step env self) (Attached env self 0) all
      (.start file) := by
    rw [hsplit]
    exact hattached.trans hrun₁ ⟨fun hended => (by cases hended), fun _ _ => trivial⟩
  have hvalidAll : ∀ op ∈ all, op.Valid env knownTypes := by
    rw [hsplit]
    intro op hop
    rcases List.mem_append.mp hop with hop | hop
    · rcases List.mem_cons.mp hop with rfl | hop
      · rintro _ ⟨⟩
      · exact (hops₁ op hop).1
    · obtain rfl := List.mem_singleton.mp hop
      rintro _ ⟨⟩
  refine ⟨k, _, sink, (Runs.run_append hretire).trans hdestroy, hfreshAll, hvalidAll, hsink,
    fun r hr => ?_⟩
  have htold := told_attached env h hsize hvalidAll hfreshAll hrunAll hidle₁ hr hattachedAll
  have hpassed : (s₁.fabricStep env (.destroySink 0)).system.passedOn r =
      (s.system.sent r).take (s₁.system.bus.parties r).delivered.length := by
    rw [← hsent]
    rfl
  rw [htold, hpassed]
  refine ⟨List.take_prefix _ _, fun i hi hfree => ?_⟩
  rw [List.length_take]
  exact Nat.lt_min.mpr ⟨hdue r hr i hi hfree, hi⟩

end Destroyed

/-! ## A thread that sends the end of a span -/

/-- Steps of threads that retire nothing. -/
theorem run_threads (env : Environment) {self : Handle}
    {ops : List {op : Threads.Op // op ≠ .consume}} {s : Logging} {system : System}
    (hrun : s.system.run env.dp env.partly self (ops.map Subtype.val) = some system)
    (hfresh : Runs.Along (System.step env.dp env.partly self)
      (Threads.Op.Fresh env.dp env.partly self) (ops.map Subtype.val) s.system) :
    s.run env self (ops.map fun op => .threads op.1 op.2) = some { s with system } ∧
      Runs.Along (Logging.step env self) (Op.Fresh env self)
        (ops.map fun op => .threads op.1 op.2) s := by
  induction ops generalizing s with
  | nil =>
    cases hrun
    exact ⟨rfl, trivial⟩
  | cons op ops ih =>
    obtain ⟨system₁, hstep, hrest⟩ := Runs.run_cons_eq_some.mp hrun
    have hstep' : s.step env self (.threads op.1 op.2) = some { s with system := system₁ } := by
      rw [Logging.step, hstep, Option.map_some]
    obtain ⟨hmore, halong⟩ := ih (s := { s with system := system₁ }) hrest (hfresh.2 system₁ hstep)
    refine ⟨Runs.run_cons_eq_some.mpr ⟨_, hstep', hmore⟩, ?_, fun s' hs' => ?_⟩
    · rintro _ ⟨⟩
      exact hfresh.1
    · cases hstep'.symm.trans hs'
      exact halong

theorem sampleOps_ne (op : Threads.Op) (hop : op ∈ sampleOps) : op ≠ .consume := by
  rcases List.mem_cons.mp hop with rfl | hop
  · rintro ⟨⟩
  · rw [List.eq_of_mem_replicate hop]
    rintro ⟨⟩

def sampleLog : List Op :=
  (sampleOps.attachWith _ sampleOps_ne).map fun op => .threads op.1 op.2

theorem sampleLog_steady :
    ∀ op ∈ sampleLog, op.Valid Pipeline.sampleEnvironment Kind.ofId ∧ ¬op.Takes 0 := by
  intro op hop
  obtain ⟨inner, hinner, rfl⟩ := List.mem_map.mp hop
  refine ⟨?_, fun htaken => htaken⟩
  rintro _ ⟨⟩
  exact sampleOps_valid inner.1 ((List.mem_attachWith ..).mp hinner)

theorem sampleLog_run : ∃ self file s,
    Mpsc.mpscBus Mpsc.plainInfo Mpsc.sampleEpoch Mpsc.newFile 2 4096 .exclusive =
      .ok (self, file) ∧
    0 < self.numRegions.toNat ∧
    Runs.Along (Logging.step Pipeline.sampleEnvironment self)
      (Op.Fresh Pipeline.sampleEnvironment self)
      (create 9 Pipeline.sampleDevice :: sampleLog) (.start file) ∧
    (Logging.start file).run Pipeline.sampleEnvironment self
      (create 9 Pipeline.sampleDevice :: sampleLog) = some s ∧
    s.system.bus.reading = none ∧ s.system.sent 0 = [sampleMessage] ∧
    ∀ j, ¬s.system.Held 0 j := by
  obtain ⟨self, file, system, h, hnum, hfresh, hrun, hreading, hsent, hproducers, hthreads⟩ :=
    sampleOps_run
  have hval : (sampleOps.attachWith _ sampleOps_ne).map Subtype.val = sampleOps :=
    List.attachWith_map_subtype_val ..
  have hfree : ∀ j, ¬system.Held 0 j := by
    rintro j ⟨p, hp | ⟨m, o, hp⟩⟩
    · rw [hproducers] at hp
      cases hp
    · rw [hthreads] at hp
      cases hp
  have hcreate : (Logging.start file).step Pipeline.sampleEnvironment self
      (create 9 Pipeline.sampleDevice) = some ((Logging.start file).fabricStep
        Pipeline.sampleEnvironment (.createSink 9 Pipeline.sampleDevice true)) := rfl
  rw [← hval] at hfresh hrun
  obtain ⟨hlog, hlogFresh⟩ := run_threads Pipeline.sampleEnvironment
    (s := (Logging.start file).fabricStep Pipeline.sampleEnvironment
      (.createSink 9 Pipeline.sampleDevice true)) hrun hfresh
  refine ⟨self, file, _, h, by omega, ⟨by rintro _ ⟨⟩, fun s' hs' => ?_⟩,
    Runs.run_cons_eq_some.mpr ⟨_, hcreate, hlog⟩, hreading, hsent, hfree⟩
  cases hcreate.symm.trans hs'
  exact hlogFresh

theorem sampleDevice_untroubled : Untroubled Pipeline.sampleDevice := by
  obtain ⟨made, hmade, hcontains⟩ := Backend.makeFile_contains (w := Backend.plainWriter) 7 []
    ⟨5, -7⟩
  cases hmade
  exact ⟨rfl, _, hcontains, Backend.header_ne_nil _ _⟩

/-! ## Main results -/

/-- What a sink has been told until `destroy_sink` has accepted it is in its file. -/
theorem told_arrives (env : Environment) {codec : Mpsc.InfoCodec} {clockEpoch : Mpsc.ClockEpoch}
    {backing : Mpsc.Backing} {numRegions regionSize : UInt32} {lockState : Mpsc.LockKind}
    {self : Handle} {file : File}
    (h : Mpsc.mpscBus codec clockEpoch backing numRegions regionSize lockState = .ok (self, file))
    (hsize : regionSize.toNat ≤ 0xe0000000) {knownTypes registry : Nat → Option Kind}
    (hfile : registry 2 = some .string) (hline : registry 3 = some .uint64) {ops : List Op}
    (hvalid : ∀ op ∈ ops, op.Valid env knownTypes)
    (hfresh : Runs.Along (Logging.step env self) (Op.Fresh env self) ops (.start file))
    {s : Logging} (hrun : (Logging.start file).run env self ops = some s) {which : Nat}
    (hstatus : ∀ hop, .sinks (.clearLastStatus which) hop ∉ ops)
    {sink : Sink.SinkFrontend FileDevice}
    (hsink : s.fabric.others which = some (.destroyed, sink)) :
    let told := (Logging.start file).told env self which ops
    (∀ m ∈ told, m.1 < self.numRegions.toNat) ∧
    ∃ threshold device, s.fabric.created[which]? = some (threshold, device) ∧
      ∀ targetBufferSize args epoch, Backend.makeFile env.writer targetBufferSize
          (Sink.attributeBytes env.dp.toContainerPrimitives args) epoch = some device.backend →
        (∀ given ∈ args, Known registry given) → epoch.InRange → ∃ written container,
          sink.backend.backend.closed = [(0, written)] ∧
          env.dp.decodeContainer knownTypes (some registry) written = some (container, []) ∧
          Chronicles epoch args ((told.map Prod.snd).filter (Sent.passes threshold)) container := by
  intro told
  obtain ⟨hfabric, hseen, htold⟩ :=
    (start_gathered env h).run (Mpsc.mpscBus_fit h hsize) hvalid hfresh hrun which
  refine ⟨fun m hm => (htold m hm).1, ?_⟩
  refine Pipeline.seen_arrives env hfile hline ?_ ?_ (not_mem_fabricOps hstatus) hfabric.symm hsink
  · rw [List.map_map]
    exact hseen
  · intro m hm
    obtain ⟨tagged, htagged, rfl⟩ := List.mem_map.mp hm
    exact (htold tagged htagged).2

/-- Whatever the threads log on a shared bus while one of them retires, whatever is done to the
sinks in between, and wherever files fail: the file of a sink that `destroy_sink` has accepted is a
container which tells of each message that was passed on while the sink was attached, up to its
threshold, and of nothing else; and of each region these are messages that were sent there, once
each and in their order. -/
theorem threads_logged_to_files (env : Environment) {codec : Mpsc.InfoCodec}
    {clockEpoch : Mpsc.ClockEpoch} {backing : Mpsc.Backing} {numRegions regionSize : UInt32}
    {lockState : Mpsc.LockKind} {self : Handle} {file : File}
    (h : Mpsc.mpscBus codec clockEpoch backing numRegions regionSize lockState = .ok (self, file))
    (hsize : regionSize.toNat ≤ 0xe0000000) {knownTypes registry : Nat → Option Kind}
    (hfile : registry 2 = some .string) (hline : registry 3 = some .uint64) {ops : List Op}
    (hvalid : ∀ op ∈ ops, op.Valid env knownTypes)
    (hfresh : Runs.Along (Logging.step env self) (Op.Fresh env self) ops (.start file))
    {s : Logging} (hrun : (Logging.start file).run env self ops = some s) (which : Nat)
    (hstatus : ∀ hop, .sinks (.clearLastStatus which) hop ∉ ops)
    (sink : Sink.SinkFrontend FileDevice)
    (hsink : s.fabric.others which = some (.destroyed, sink)) :
    let told := (Logging.start file).told env self which ops
    (∀ m ∈ told, m.1 < self.numRegions.toNat) ∧
    (∀ r < self.numRegions.toNat, (ofRegion r told).Sublist (s.system.sent r)) ∧
    ∃ threshold device, s.fabric.created[which]? = some (threshold, device) ∧
      ∀ targetBufferSize args epoch, Backend.makeFile env.writer targetBufferSize
          (Sink.attributeBytes env.dp.toContainerPrimitives args) epoch = some device.backend →
        (∀ given ∈ args, Known registry given) → epoch.InRange → ∃ written container,
          sink.backend.backend.closed = [(0, written)] ∧
          env.dp.decodeContainer knownTypes (some registry) written = some (container, []) ∧
          Chronicles epoch args ((told.map Prod.snd).filter (Sent.passes threshold)) container := by
  intro told
  obtain ⟨hregions, harrive⟩ :=
    told_arrives env h hsize hfile hline hvalid hfresh hrun hstatus hsink
  refine ⟨hregions, fun r hr => ?_, harrive⟩
  have horder : InOrder r 0 (Logging.start file) := ⟨Nat.zero_le _, rfl⟩
  obtain ⟨-, -, -, -, hsub, -⟩ := horder.run (Mpsc.mpscBus_fit h hsize) hr hvalid hfresh
    (start_gathered env h) hrun which
  exact hsub

theorem threads_logged_to_files_sample : ∃ self file ops s sink written container,
    Mpsc.mpscBus Mpsc.plainInfo Mpsc.sampleEpoch Mpsc.newFile 2 4096 .exclusive =
      .ok (self, file) ∧
    (Logging.start file).run Pipeline.sampleEnvironment self ops = some s ∧
    s.fabric.others 0 = some (.destroyed, sink) ∧
    sink.backend.backend.closed = [(0, written)] ∧
    Codec.plainSpans.decodeContainer Kind.ofId (some Pipeline.sampleRegistry) written =
      some (container, []) ∧
    Chronicles ⟨5, -7⟩ none ((((Logging.start file).told Pipeline.sampleEnvironment self 0
      ops).map Prod.snd).filter (Sent.passes 9)) container := by
  obtain ⟨self, file, s, h, -, hfresh, hrun, hidle, -, -⟩ := sampleLog_run
  obtain ⟨k, s', sink, hrest, hfreshAll, hvalidAll, hsink, -⟩ :=
    destroyed_complete Pipeline.sampleEnvironment h (by decide) (by decide)
      sampleDevice_untroubled sampleLog_steady hfresh hrun hidle
  have hrunAll := (Runs.run_append hrun).trans hrest
  have hstatus : ∀ hop, .sinks (.clearLastStatus 0) hop ∉
      create 9 Pipeline.sampleDevice :: sampleLog ++ (List.replicate k .retire ++ [destroy 0]) := by
    intro hop hmem
    simp [create, destroy, sampleLog] at hmem
  have hcreated := created_first _ h (by decide) hfreshAll hrunAll hvalidAll
  obtain ⟨-, -, threshold, device, hmade, harrive⟩ := threads_logged_to_files
    Pipeline.sampleEnvironment h (by decide)
      (show Pipeline.sampleRegistry 2 = some .string from rfl)
    rfl hvalidAll hfreshAll hrunAll 0 hstatus sink hsink
  cases hcreated.symm.trans hmade
  obtain ⟨written, container, hclosed, hread, hchronicles⟩ :=
    harrive 7 none ⟨5, -7⟩ rfl (by rintro _ ⟨⟩) (by decide)
  exact ⟨self, file, _, s', sink, written, container, h, hrunAll, hsink, hclosed, hread,
    hchronicles⟩

/-- However the threads take turns with the one that retires: a sink that has been there from the
start and that nobody takes away, and whose file does not fail, is accepted by `destroy_sink` when
one more call of `retire_log_records` has ended. Its file is a container which tells, up to its
threshold, of every message that was in front of those that threads still held, of each region once
each and in their order, and of nothing that was not sent. -/
theorem untroubled_file_complete (env : Environment) {codec : Mpsc.InfoCodec}
    {clockEpoch : Mpsc.ClockEpoch} {backing : Mpsc.Backing} {numRegions regionSize : UInt32}
    {lockState : Mpsc.LockKind} {self : Handle} {file : File}
    (h : Mpsc.mpscBus codec clockEpoch backing numRegions regionSize lockState = .ok (self, file))
    (hsize : regionSize.toNat ≤ 0xe0000000) {knownTypes registry : Nat → Option Kind}
    (hfile : registry 2 = some .string) (hline : registry 3 = some .uint64)
    {targetBufferSize : Nat} {args : Option Codec.AttributeArgs} {epoch : Sink.Epoch}
    {backend : Backend} (hmake : Backend.makeFile env.writer targetBufferSize
      (Sink.attributeBytes env.dp.toContainerPrimitives args) epoch = some backend)
    (hargs : ∀ given ∈ args, Known registry given) (hepoch : epoch.InRange)
    {threshold : Nat} (hthreshold : threshold < Sink.disableThreshold) {ops : List Op}
    (hops : ∀ op ∈ ops, op.Valid env knownTypes ∧ ¬op.Takes 0)
    (hfresh : Runs.Along (Logging.step env self) (Op.Fresh env self)
      (create threshold ⟨backend, []⟩ :: ops) (.start file)) {s : Logging}
    (hrun : (Logging.start file).run env self (create threshold ⟨backend, []⟩ :: ops) = some s)
    (hidle : s.system.bus.reading = none) : ∃ k s' sink written container told,
      s.run env self (List.replicate k .retire ++ [destroy 0]) = some s' ∧
      s'.fabric.others 0 = some (.destroyed, sink) ∧
      sink.backend.backend.closed = [(0, written)] ∧
      env.dp.decodeContainer knownTypes (some registry) written = some (container, []) ∧
      Chronicles epoch args ((told.map Prod.snd).filter (Sent.passes threshold)) container ∧
      (∀ m ∈ told, m.1 < self.numRegions.toNat) ∧
      ∀ r < self.numRegions.toNat, ofRegion r told <+: s.system.sent r ∧
        ∀ i < (s.system.sent r).length, (∀ j ≤ i, ¬s.system.Held r j) →
          i < (ofRegion r told).length := by
  obtain ⟨made, hmade, hcontains⟩ := Backend.makeFile_contains (w := env.writer) targetBufferSize
    (Sink.attributeBytes env.dp.toContainerPrimitives args) epoch
  cases hmade.symm.trans hmake
  have hdevice : Untroubled ⟨backend, []⟩ := ⟨rfl, _, hcontains, Backend.header_ne_nil epoch _⟩
  obtain ⟨k, s', sink, hrest, hfreshAll, hvalidAll, hsink, hregions⟩ :=
    destroyed_complete env h hsize hthreshold hdevice hops hfresh hrun hidle
  set all := create threshold ⟨backend, []⟩ :: ops ++ (List.replicate k .retire ++ [destroy 0])
    with hall
  have hrunAll : (Logging.start file).run env self all = some s' :=
    (Runs.run_append hrun).trans hrest
  have hclear : ∀ hop, .sinks (.clearLastStatus 0) hop ∉ all := by
    intro hop hmem
    rcases List.mem_append.mp hmem with hmem | hmem
    · rcases List.mem_cons.mp hmem with heq | hmem
      · cases heq
      · exact (hops _ hmem).2 rfl
    · rcases List.mem_append.mp hmem with hmem | hmem
      · cases List.eq_of_mem_replicate hmem
      · cases List.mem_singleton.mp hmem
  have hcreated := created_first env h hsize hfreshAll hrunAll hvalidAll
  obtain ⟨htold, _, _, hmade', harrive⟩ :=
    told_arrives env h hsize hfile hline hvalidAll hfreshAll hrunAll hclear hsink
  cases hcreated.symm.trans hmade'
  obtain ⟨written, container, hclosed, hread, hchronicles⟩ :=
    harrive targetBufferSize args epoch hmake hargs hepoch
  exact ⟨k, s', sink, written, container, _, hrest, hsink, hclosed, hread, hchronicles, htold,
    hregions⟩

theorem untroubled_file_complete_sample : ∃ self file s k s' sink written container told,
    Mpsc.mpscBus Mpsc.plainInfo Mpsc.sampleEpoch Mpsc.newFile 2 4096 .exclusive =
      .ok (self, file) ∧
    (Logging.start file).run Pipeline.sampleEnvironment self
      (create 9 Pipeline.sampleDevice :: sampleLog) = some s ∧
    s.run Pipeline.sampleEnvironment self (List.replicate k .retire ++ [destroy 0]) = some s' ∧
    s'.fabric.others 0 = some (.destroyed, sink) ∧
    sink.backend.backend.closed = [(0, written)] ∧
    Codec.plainSpans.decodeContainer Kind.ofId (some Pipeline.sampleRegistry) written =
      some (container, []) ∧
    Chronicles ⟨5, -7⟩ none ((told.map Prod.snd).filter (Sent.passes 9)) container ∧
    ofRegion 0 told = [sampleMessage] := by
  obtain ⟨self, file, s, h, hwhich, hfresh, hrun, hidle, hsent, hfree⟩ := sampleLog_run
  have hmake : Backend.makeFile Backend.plainWriter 7
      (Sink.attributeBytes Codec.plainSpans.toContainerPrimitives none) ⟨5, -7⟩ =
      some Pipeline.sampleDevice.backend := rfl
  obtain ⟨k, s', sink, written, container, told, hrest, hsink, hclosed, hread, hchronicles, -,
    hregions⟩ := untroubled_file_complete Pipeline.sampleEnvironment h (by decide)
      (show Pipeline.sampleRegistry 2 = some .string from rfl) rfl hmake (by rintro _ ⟨⟩)
      (by decide) (by decide) sampleLog_steady hfresh hrun hidle
  obtain ⟨hfirst, hlong⟩ := hregions 0 hwhich
  rw [hsent] at hfirst hlong
  have hone := hlong 0 (by simp) fun j _ => hfree j
  refine ⟨self, file, s, k, s', sink, written, container, told, h, hrun, hrest, hsink, hclosed,
    hread, hchronicles, ?_⟩
  exact hfirst.eq_of_length_le hone

end Deeplog.Threads.Logging

import Deeplog.Database.Prune
import Deeplog.Threads.Arrival

/-!
# From a crash to a record container

A process dies with threads anywhere in their work. Its bus file is recovered into a container: a
reader of that container is told, region by region, of messages of the last batch that the consumer
was handing back, and then of everything that had been committed and not been passed on.
-/

namespace Deeplog.Threads

open Cbor (Bytes)
open Codec (Sent SpanPrimitives Kind)
open Database (Recoverer processIdAttribute)
open Mpsc (Handle WholeBus Message consumeBatchSize)
open Pipeline (Known Chronicles)

/-! ## Messages as recovery sees them -/

section

variable {dp : SpanPrimitives} {knownTypes : Nat → Option Kind} {m : Sent}

/-- A message is one item. -/
theorem valid_item (h : m.Valid dp knownTypes) : Cbor.Item (m.bytes dp) := by
  have harray {n : Nat} {items : Bytes} (hn : n < 2 ^ 64) (hitems : Cbor.Items n items) :
      Cbor.Item (dp.emitArray n ++ items) := by
    rw [dp.emitArray_eq n hn]
    exact Cbor.item_array hn hitems
  cases m with
  | record logCtx args timeStamp =>
    obtain ⟨items, hitems, hbytes⟩ :=
      Codec.recordBytes_items dp h.severity.1 h.severity.2 h.size
    rw [Sent.bytes_record, hbytes]
    exact harray (by decide) hitems.items
  | spanStart msg =>
    obtain ⟨items, hitems, hbytes⟩ := dp.startPieces_items h.1
    rw [Sent.bytes, Sent.pieces, Sent.bytesOf_checked, hbytes]
    exact harray (by decide) hitems
  | spanEnd msg =>
    obtain ⟨items, hitems, hbytes⟩ := dp.endPieces_items msg
    rw [Sent.bytes, Sent.pieces, Sent.bytesOf_checked, hbytes]
    exact harray (by decide) hitems

/-- Recovery does not take a message for garbage. -/
theorem skipItem_isSome (h : m.Valid dp knownTypes) (deeppack : Sink.Deeppack) (filler : Bytes) :
    (deeppack.skipItem (m.bytes dp ++ filler)).1.isSome = true := by
  have hskip : Cbor.skipItem (m.bytes dp ++ filler) = some ((), filler) :=
    Cbor.skipItem_eq_some_iff.mpr ⟨m.bytes dp, valid_item h, rfl⟩
  rw [(deeppack.skipItem_eq _ filler).mpr hskip]
  rfl

/-- And copies it as it was written. -/
theorem copied_bytes (env : Recoverer) (h : m.Valid dp knownTypes) (filler : Bytes) :
    env.copied (m.bytes dp ++ filler) = m.bytes dp := by
  rw [env.copied_eq, h.preparsed env.messages filler, Sent.info_rawData]

end

/-! ## One region -/

namespace System

/-- What is committed in a region and has not been passed on. -/
def unread (s : System) (which : Nat) : List Sent :=
  let parties := s.bus.parties which
  let behind := parties.delivered.length
  (((s.sent which).drop behind).zip (parties.messages.drop behind)).filterMap fun (m, message) =>
    if message.stage = .committed then some m else none

end System

section Region

variable {dp : SpanPrimitives} {knownTypes : Nat → Option Kind} {self : Handle} {file : File}
  {s : System} {which : Nat}

/-- What recovery finds of slots that have not been passed on. -/
theorem found_copied (env : Recoverer) {sent : List Sent} {messages : List Message}
    (h : List.Forall₂ (Carried dp knownTypes) sent messages) :
    (Mpsc.found (fun bs => (env.messages.skipItem bs).1.isSome) messages).map env.copied =
      ((sent.zip messages).filterMap fun (m, message) =>
        if message.stage = .committed then some m else none).map (Sent.bytes dp) := by
  induction h with
  | nil => rfl
  | @cons m message sent messages hcarried hrest ih =>
    rw [List.zip_cons_cons, List.filterMap_cons, Mpsc.found, List.filter_cons]
    by_cases hstage : message.stage = .committed
    · obtain ⟨filler, hcontent⟩ := hcarried.content (show message.entry = some message.content by
        simp [Message.entry, hstage])
      have hvalid := hcarried.sendable.valid
      have hrecoverable : message.Recoverable fun bs => (env.messages.skipItem bs).1.isSome := by
        refine ⟨hstage, ?_⟩
        rw [hcontent]
        exact skipItem_isSome hvalid env.messages filler
      simp only [hrecoverable, decide_true, if_true, hstage, List.map_cons, hcontent,
        copied_bytes env hvalid filler]
      exact congrArg _ ih
    · have hnot : ¬message.Recoverable fun bs => (env.messages.skipItem bs).1.isSome :=
        fun hrecoverable => hstage hrecoverable.1
      simp only [hnot, decide_false, if_neg hstage]
      exact ih

/-- Slots and what has been sent, from a message on. -/
theorem Ok.carried_drop (h : Ok dp knownTypes self file s) (which k : Nat) :
    List.Forall₂ (Carried dp knownTypes) ((s.sent which).drop k)
      ((s.bus.parties which).messages.drop k) := by
  have hoccupied := h.occupied which
  apply List.forall₂_drop
  rw [List.forall₂_iff_get]
  refine ⟨hoccupied.length_eq, fun i hi hi' => ?_⟩
  exact hoccupied.carried i _ _ (List.getElem?_eq_getElem hi) (List.getElem?_eq_getElem hi')

/-- What has been sent and not been passed on is committed, unless a thread holds its slot. -/
theorem Ok.mem_unread (h : Ok dp knownTypes self file s) (hwhich : which < self.numRegions.toNat)
    {i : Nat} {m : Sent} (hm : (s.sent which)[i]? = some m)
    (hbehind : (s.bus.parties which).delivered.length ≤ i) (hfree : ¬s.Held which i) :
    m ∈ s.unread which := by
  have hlength := (h.occupied which).length_eq
  have hlt := (List.getElem?_eq_some_iff.mp hm).1
  have hmessage := List.getElem?_eq_getElem (hlength ▸ hlt)
  have hstage := h.committed_of_free hwhich hmessage hbehind hfree
  have hpair : (((s.sent which).drop (s.bus.parties which).delivered.length).zip
      ((s.bus.parties which).messages.drop (s.bus.parties which).delivered.length))[
        i - (s.bus.parties which).delivered.length]? =
      some (m, (s.bus.parties which).messages[i]) := by
    rw [List.getElem?_zip_eq_some, List.getElem?_drop, List.getElem?_drop,
      Nat.add_sub_cancel' hbehind]
    exact ⟨hm, hmessage⟩
  exact List.mem_filterMap.mpr ⟨_, List.mem_of_getElem? hpair, if_pos hstage⟩

/-- Whatever has been sent has been passed on, or is committed, or in the hands of a thread. -/
theorem Ok.passed_or_unread (h : Ok dp knownTypes self file s)
    (hwhich : which < self.numRegions.toNat) {i : Nat} {m : Sent}
    (hm : (s.sent which)[i]? = some m) :
    i < (s.passedOn which).length ∨ m ∈ s.unread which ∨ s.Held which i := by
  have hlt := (List.getElem?_eq_some_iff.mp hm).1
  by_cases hbehind : (s.bus.parties which).delivered.length ≤ i
  · by_cases hheld : s.Held which i
    · exact .inr (.inr hheld)
    · exact .inr (.inl (h.mem_unread hwhich hm hbehind hheld))
  · refine .inl ?_
    rw [System.passedOn, List.length_take]
    omega

theorem mem_sent_of_unread {m : Sent} (h : m ∈ s.unread which) : m ∈ s.sent which := by
  obtain ⟨⟨m', message⟩, hpair, hm⟩ := List.mem_filterMap.mp h
  dsimp only at hm
  split at hm
  · cases hm
    exact List.mem_of_mem_drop (List.of_mem_zip hpair).1
  · cases hm

/-- Regions are copied one behind the other. -/
theorem copied_flatMap {env : Recoverer} {regions : List Nat} {recovered : Nat → List (List Bytes)}
    {messages : Nat → List Sent}
    (h : ∀ which ∈ regions, (recovered which).flatten.map env.copied =
      (messages which).map (Sent.bytes dp)) :
    (regions.flatMap recovered).flatten.map env.copied =
      (regions.flatMap messages).map (Sent.bytes dp) := by
  induction regions with
  | nil => rfl
  | cons which regions ih =>
    obtain ⟨hwhich, hrest⟩ := List.forall_mem_cons.mp h
    rw [List.flatMap_cons, List.flatten_append, List.map_append, hwhich, ih hrest,
      List.flatMap_cons, List.map_append]

theorem known_processId {registry : Nat → Option Kind} (processId : UInt32)
    (h : registry 256 = some .uint64) :
    ∀ given ∈ some (processIdAttribute processId), Known registry given := by
  rintro _ ⟨⟩
  refine ⟨fun attr hattr => ?_, List.nodup_singleton _, fun attr hattr => ?_⟩
  · rw [List.mem_singleton.mp hattr]
    trivial
  · rw [List.mem_singleton.mp hattr]
    exact h

end Region

/-! ## The file -/

section Created

variable {codec : Mpsc.InfoCodec} {clockEpoch : Mpsc.ClockEpoch} {backing : Mpsc.Backing}
  {numRegions regionSize : UInt32} {lockState : Mpsc.LockKind} {self : Handle} {file : File}
  {dp : SpanPrimitives} {knownTypes : Nat → Option Kind} {partly : Bytes → Nat → Nat}
  (h : Mpsc.mpscBus codec clockEpoch backing numRegions regionSize lockState = .ok (self, file))
  (hsize : regionSize.toNat ≤ 0xe0000000) {ops : List Op}
  (hvalid : ∀ op ∈ ops, ∀ m ∈ op.message, m.Valid dp knownTypes)
  (hfresh : Runs.Along (System.step dp partly self) (Op.Fresh dp partly self) ops (.start file))
  {s : System} (hrun : (System.start file).run dp partly self ops = some s)
include h hsize hvalid hfresh hrun

/-- What recovery copies of a region: messages of the last batch, and all that is unread. -/
theorem recovered_region (env : Recoverer) {which : Nat} (hwhich : which < self.numRegions.toNat)
    (hheaded : ∀ p i, s.producers which p ≠ .exchanged i) :
    ∃ again : List Sent, again.Sublist (s.passedOn which) ∧ again.length ≤ consumeBatchSize ∧
      (Mpsc.recoverRegion (fun bs => (env.messages.skipItem bs).1.isSome) self.regionEnd
        (self.region s.bus.file which)).flatten.map env.copied =
        (again ++ s.unread which).map (Sent.bytes dp) := by
  have hfit := Mpsc.mpscBus_fit h hsize
  have hok := run_ok h hsize hvalid hfresh hrun
  obtain ⟨busOps, hbus, hbusFresh⟩ := run_onBus hfresh hrun
  have hbusOk := Mpsc.mpscBus_bus_ok h hsize hbusFresh hbus hwhich
  have hbounded := Mpsc.mpscBus_bounded h hsize hbusFresh hbus hwhich
  have hstages : ∀ m ∈ (s.bus.bus self which).pending, m.stage ≠ .reserved := by
    intro message hmem hstage
    obtain ⟨i, hi⟩ := List.getElem?_of_mem (List.mem_of_mem_drop hmem)
    obtain ⟨p, hp⟩ := (hok.occupied which).reserved i message hi hstage
    exact hheaded p i hp
  obtain ⟨again, hagain, hlength, hflatten⟩ := hbusOk.recovered_headed hfit.aligned
    (fun bs => (env.messages.skipItem bs).1.isSome) hbounded hstages
  have hcopied : (s.bus.parties which).delivered.map env.copied =
      (s.passedOn which).map (Sent.bytes dp) := by
    have hinfos := congrArg (List.map Sink.MessageInfo.rawData)
      (hok.passedOn_infos hwhich env.messages)
    have hcopy : env.copied = fun raw => (env.messages.preparseMessage raw).2.rawData :=
      funext env.copied_eq
    simpa only [List.map_map, Function.comp_def, Sent.info_rawData, hcopy] using hinfos
  obtain ⟨told, htold, hmap⟩ := List.sublist_map_iff.mp (hcopied ▸ hagain.map env.copied)
  refine ⟨told, htold, ?_, ?_⟩
  · have hlen := congrArg List.length hmap
    rw [List.length_map, List.length_map] at hlen
    omega
  · have hrest := found_copied env (hok.carried_drop which
      (s.bus.parties which).delivered.length)
    refine (congrArg (List.map env.copied) hflatten).trans ?_
    rw [List.map_append, List.map_append, hmap]
    exact congrArg _ hrest

/-- The same of all regions. -/
theorem recovered_regions (env : Recoverer)
    (hheaded : ∀ which < self.numRegions.toNat, ∀ p i, s.producers which p ≠ .exchanged i) :
    ∃ again : Nat → List Sent, ∀ which < self.numRegions.toNat,
      (again which).Sublist (s.passedOn which) ∧ (again which).length ≤ consumeBatchSize ∧
      (Mpsc.recoverRegion (fun bs => (env.messages.skipItem bs).1.isSome) self.regionEnd
        (self.region s.bus.file which)).flatten.map env.copied =
        (again which ++ s.unread which).map (Sent.bytes dp) := by
  have hregion : ∀ which, ∃ again : List Sent, which < self.numRegions.toNat →
      again.Sublist (s.passedOn which) ∧ again.length ≤ consumeBatchSize ∧
      (Mpsc.recoverRegion (fun bs => (env.messages.skipItem bs).1.isSome) self.regionEnd
        (self.region s.bus.file which)).flatten.map env.copied =
        (again ++ s.unread which).map (Sent.bytes dp) := by
    intro which
    by_cases hwhich : which < self.numRegions.toNat
    · obtain ⟨again, hall⟩ :=
        recovered_region h hsize hvalid hfresh hrun env hwhich (hheaded which hwhich)
      exact ⟨again, fun _ => hall⟩
    · exact ⟨[], fun hlt => absurd hlt hwhich⟩
  choose again hagain using hregion
  exact ⟨again, hagain⟩

theorem sendable_of_sent (which : Nat) : ∀ m ∈ s.sent which, Sendable dp knownTypes m := by
  have hoccupied := (run_ok h hsize hvalid hfresh hrun).occupied which
  intro m hm
  obtain ⟨i, hi⟩ := List.getElem?_of_mem hm
  have hlt := hoccupied.length_eq ▸ (List.getElem?_eq_some_iff.mp hi).1
  exact (hoccupied.carried i m _ hi (List.getElem?_eq_getElem hlt)).sendable

/-- The process dies while threads log and the consumer reads, wherever they are, except between an
exchange and the header store behind it. Then the bus is recovered into a container that a reader
decodes. It tells, region by region, of messages of the last batch that had been passed on, and of
everything that was committed and had not been passed on, once each and in order; whatever else
has been sent was still in the hands of a thread. -/
theorem crashed_messages_salvaged (deeppack : Sink.Deeppack) (writer : Sink.Writer)
    {epoch : Sink.Epoch} (hepoch : epoch.InRange) {registry : Nat → Option Kind}
    (hfile : registry 2 = some .string) (hline : registry 3 = some .uint64)
    (hprocess : registry 256 = some .uint64) (processId : UInt32)
    (hheaded : ∀ which < self.numRegions.toNat, ∀ p i, s.producers which p ≠ .exchanged i) :
    let env : Recoverer := ⟨codec, deeppack, dp.toContainerPrimitives, writer, epoch⟩
    ∃ batches salvaged container, ∃ again : Nat → List Sent,
      env.recoverBus s.bus.file true = .ok batches ∧
      env.recoveryContainer processId batches = some salvaged ∧
      dp.decodeContainer knownTypes (some registry) salvaged = some (container, []) ∧
      Chronicles epoch (some (processIdAttribute processId))
        ((List.range self.numRegions.toNat).flatMap fun which => again which ++ s.unread which)
        container ∧
      ∀ which < self.numRegions.toNat,
        (again which).Sublist (s.passedOn which) ∧ (again which).length ≤ consumeBatchSize ∧
        ∀ (i : Nat) m, (s.sent which)[i]? = some m →
          i < (s.passedOn which).length ∨ m ∈ s.unread which ∨ s.Held which i := by
  intro env
  have hok := run_ok h hsize hvalid hfresh hrun
  obtain ⟨busOps, hbus, -⟩ := run_onBus hfresh hrun
  obtain ⟨again, hagain⟩ := recovered_regions h hsize hvalid hfresh hrun env hheaded
  have hrecover : env.recoverBus s.bus.file true = .ok ((List.range self.numRegions.toNat).flatMap
      fun which => Mpsc.recoverRegion (fun bs => (env.messages.skipItem bs).1.isSome)
        self.regionEnd (self.region s.bus.file which)) :=
    Mpsc.mpscBus_recovers h hsize hbus _ rfl ⟨rfl, rfl⟩ ⟨rfl, rfl⟩ .exclusive
  have hmem : ∀ m ∈ (List.range self.numRegions.toNat).flatMap fun which =>
      again which ++ s.unread which, m.Valid dp knownTypes := by
    intro m hm
    obtain ⟨which, hwhich, hm⟩ := List.mem_flatMap.mp hm
    refine (sendable_of_sent h hsize hvalid hfresh hrun which m ?_).valid
    rcases List.mem_append.mp hm with hm | hm
    · exact List.mem_of_mem_take ((hagain which (List.mem_range.mp hwhich)).1.subset hm)
    · exact mem_sent_of_unread hm
  obtain ⟨container, hdecoded, hchronicles⟩ := Pipeline.chronicles hfile hline
    (known_processId processId hprocess) hepoch hmem
  refine ⟨_, _, container, again, hrecover, Database.recoveryContainer_eq env processId _, ?_,
    hchronicles, fun which hwhich => ⟨(hagain which hwhich).1, (hagain which hwhich).2.1,
      fun i m hm => hok.passed_or_unread hwhich hm⟩⟩
  rw [copied_flatMap fun which hwhich => (hagain which (List.mem_range.mp hwhich)).2.2]
  exact hdecoded

end Created

theorem crashed_messages_salvaged_sample : ∃ self file s batches salvaged container,
    Mpsc.mpscBus Mpsc.plainInfo Mpsc.sampleEpoch Mpsc.newFile 2 4096 .exclusive = .ok (self, file) ∧
    (System.start file).run Codec.plainSpans (fun _ _ => 0) self sampleOps = some s ∧
    (⟨Mpsc.plainInfo, .ofCbor, Codec.plainSpans.toContainerPrimitives, Sink.Backend.plainWriter,
      ⟨5, -7⟩⟩ : Recoverer).recoverBus s.bus.file true = .ok batches ∧
    (⟨Mpsc.plainInfo, .ofCbor, Codec.plainSpans.toContainerPrimitives, Sink.Backend.plainWriter,
      ⟨5, -7⟩⟩ : Recoverer).recoveryContainer 4711 batches = some salvaged ∧
    Codec.plainSpans.decodeContainer Kind.ofId (some Pipeline.sampleRegistry) salvaged =
      some (container, []) ∧
    (0 < (s.passedOn 0).length ∨ sampleMessage ∈ s.unread 0) := by
  obtain ⟨self, file, s, h, hnum, hfresh, hrun, -, hsent, -, hthreads⟩ := sampleOps_run
  have hproducers : ∀ which p i, s.producers which p ≠ .exchanged i := by
    intro which p i
    have hat := ((run_ok h (by decide) sampleOps_valid hfresh hrun).occupied which).placed p
    rw [hthreads] at hat
    rw [show s.producers which p = .idle from hat]
    simp
  obtain ⟨batches, salvaged, container, again, hrecover, hsalvaged, hdecoded, -, hregions⟩ :=
    crashed_messages_salvaged h (by decide) sampleOps_valid hfresh hrun .ofCbor
      Sink.Backend.plainWriter (show (⟨5, -7⟩ : Sink.Epoch).InRange by decide)
      (show Pipeline.sampleRegistry 2 = some .string from rfl) rfl rfl 4711
      (fun which _ => hproducers which)
  refine ⟨self, file, s, batches, salvaged, container, h, hrun, hrecover, hsalvaged, hdecoded, ?_⟩
  obtain hpassed | hunread | hheld := (hregions 0 (by omega)).2.2 0 sampleMessage (by simp [hsent])
  · exact .inl hpassed
  · exact .inr hunread
  · obtain ⟨p, hp | ⟨m, o, hp⟩⟩ := hheld
    · exact absurd hp (hproducers 0 p 0)
    · rw [hthreads] at hp
      cases hp

end Deeplog.Threads

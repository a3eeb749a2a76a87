import Deeplog.Threads.Alone

/-!
# What arrives of the messages of threads

Over every run of threads and consumer each region holds what has been sent there. The consumer
has been given its first messages, whole and in order, and the slots that it has to wait for are in
the hands of threads.
-/

namespace Deeplog.Threads

open Cbor (Bytes)
open Codec (Sent SpanPrimitives Kind)
open Mpsc (Handle WholeBus Shared Access Producer Message maxMessageSize allocSizeOf)

/-! ## Runs -/

/-- A bus at work with its threads. -/
structure Ok (dp : SpanPrimitives) (knownTypes : Nat → Option Kind) (bus : Handle) (file : File)
    (s : System) : Prop where
  sound : WholeBus.Sound bus file s.bus
  regions : ∀ which < bus.numRegions.toNat, (s.bus.shared bus which).Ok bus.regionEnd
  occupied : ∀ which, Occupied dp knownTypes which s.threads (s.sent which)
    (s.bus.parties which).messages (s.producers which)

section Run

variable {dp : SpanPrimitives} {knownTypes : Nat → Option Kind} {partly : Bytes → Nat → Nat}
  {self : Handle} {file : File} {s s' : System} {op : Op} {ops : List Op}

/-- Fresh steps keep all regions in order. -/
theorem regions_step (hfit : WholeBus.Fit self file) {b b' : WholeBus}
    (hsound : WholeBus.Sound self file b)
    (hregions : ∀ which < self.numRegions.toNat, (b.shared self which).Ok self.regionEnd)
    {op : WholeBus.Op} (hfresh : op.Fresh self b) (hs : b.step self op = some b') :
    ∀ which < self.numRegions.toNat, (b'.shared self which).Ok self.regionEnd := by
  intro which hwhich
  have hpart := hsound.step_region hfit hs hwhich
  refine (hregions which hwhich).run hfit.aligned hfit.room ?_ hpart
  cases hseen : b.seen self which op with
  | none => trivial
  | some access => exact ⟨hfresh.seen hseen, fun _ _ => trivial⟩

/-- A message comes with a thread that has been idle. -/
theorem Ok.enter {p : Nat} {m : Sent} {first : Nat} (h : Ok dp knownTypes self file s)
    (hidle : s.threads p = .idle) (hm : Sendable dp knownTypes m) :
    Ok dp knownTypes self file (s.enter p (.allocating m first first)) := by
  refine ⟨h.sound, h.regions, fun which => ?_⟩
  have hat := (h.occupied which).placed p
  rw [hidle] at hat
  have hproducer : s.producers which p = .idle := hat
  have hthread : (Thread.allocating m first first).At dp knownTypes which (s.sent which)
      (s.bus.parties which).messages .idle := ⟨hm, by simp [For]⟩
  have hgo := (h.occupied which).enter hthread (p := p) (by simp [hproducer]) (by simp [hidle])
  rwa [← hproducer, Function.update_eq_self] at hgo

theorem Ok.step (hfit : WholeBus.Fit self file) (hvalid : ∀ m ∈ op.message, m.Valid dp knownTypes)
    (hfresh : op.Fresh dp partly self s) (h : Ok dp knownTypes self file s)
    (hs : s.step dp partly self op = some s') : Ok dp knownTypes self file s' := by
  cases op with
  | send p m spread =>
    simp only [System.step] at hs
    split at hs
    case h_2 => cases hs
    case h_1 hidle =>
      split at hs
      case isTrue => cases hs; exact h
      case isFalse hsize =>
        cases hs
        exact h.enter hidle ⟨hvalid m rfl, Nat.not_lt.mp hsize⟩
  | next p spurious =>
    obtain ⟨⟨which, access⟩, hnext, hmap⟩ := Option.bind_eq_some_iff.mp hs
    obtain ⟨bus, hbus, rfl⟩ := Option.map_eq_some_iff.mp hmap
    have hfresh : (WholeBus.Op.access which access).Fresh self s.bus :=
      hfresh _ (by simp [System.onBus, hnext])
    refine ⟨h.sound.step hfit hbus, regions_step hfit h.sound h.regions hfresh hbus,
      fun other => ?_⟩
    simp only [WholeBus.step] at hbus
    split at hbus
    case isFalse => cases hbus
    case isTrue hin =>
      obtain ⟨t, ht, rfl⟩ := Option.map_eq_some_iff.mp hbus
      by_cases hne : which = other
      · subst hne
        have hgo := (h.occupied which).advance (n := self.numRegions.toNat)
          (t := s.bus.shared self which) hnext rfl ht
        simp only [System.enter, System.producers, WholeBus.put, Function.update_self]
        exact hgo
      · have hgo := (h.occupied other).elsewhere (n := self.numRegions.toNat) hnext hne
          (s.producers which p) (t.producers p)
        simpa [System.enter, System.producers, WholeBus.put,
          Function.update_of_ne (Ne.symm hne)] using hgo
  | createSpan request =>
    cases hs
    have hgo : s.bus.step self (.createSpan request) = some (s.bus.createSpan self request) := rfl
    exact ⟨h.sound.step hfit hgo, regions_step hfit h.sound h.regions (hfresh _ rfl) hgo,
      h.occupied⟩
  | consume =>
    obtain ⟨bus, hbus, rfl⟩ := Option.map_eq_some_iff.mp hs
    refine ⟨h.sound.step hfit hbus, regions_step hfit h.sound h.regions (hfresh _ rfl) hbus,
      fun other => ?_⟩
    rcases WholeBus.step_cases hbus with ⟨request, hop, -⟩ | ⟨reading, -, -, rfl⟩ |
      ⟨which, access, t, reading, hwhich, hseen, ht, rfl⟩
    · cases hop
    · exact h.occupied other
    · obtain rfl : access = .consume := by
        have hself := hseen which
        simp only [WholeBus.seen, if_true] at hself
        split at hself
        · exact (Option.some.inj hself).symm
        · cases hself
      by_cases hne : which = other
      · subst hne
        obtain ⟨b, hb, rfl⟩ := Option.map_eq_some_iff.mp ht
        obtain ⟨hlength, hkeep⟩ := consume_keeps hfit.aligned (h.regions which hwhich).bus hb
        simp only [System.producers, WholeBus.put, Function.update_self]
        exact (h.occupied which).consume hlength hkeep
      · simp only [System.producers, WholeBus.put, Function.update_of_ne (Ne.symm hne)]
        exact h.occupied other

theorem Ok.run (hfit : WholeBus.Fit self file)
    (hvalid : ∀ op ∈ ops, ∀ m ∈ op.message, m.Valid dp knownTypes)
    (hfresh : Runs.Along (System.step dp partly self) (Op.Fresh dp partly self) ops s)
    (h : Ok dp knownTypes self file s) (hrun : s.run dp partly self ops = some s') :
    Ok dp knownTypes self file s' :=
  Runs.invariant (fun _ _ _ hc h hs => h.step hfit hc.1 hc.2 hs) (hfresh.and_forall hvalid) h hrun

end Run

/-! ## What arrives -/

namespace System

/-- In the hands of a thread, from the exchange to the commit. -/
def Held (s : System) (which i : Nat) : Prop :=
  ∃ p, s.producers which p = .exchanged i ∨ ∃ m o, s.threads p = .writing m which i o

/-- What the consumer has been given of a region. -/
def passedOn (s : System) (which : Nat) : List Sent :=
  (s.sent which).take (s.bus.parties which).delivered.length

end System

section Arrival

variable {dp : SpanPrimitives} {knownTypes : Nat → Option Kind} {partly : Bytes → Nat → Nat}
  {self : Handle} {file : File} {s s' : System} {op : Op} {ops : List Op} {which : Nat}

theorem Carried.content {m : Sent} {message : Message} {content : Bytes}
    (h : Carried dp knownTypes m message) (hentry : message.entry = some content) :
    ∃ filler, content = m.bytes dp ++ filler := by
  have hcontent : message.content = content := by
    grind [Message.entry]
  have hfits := h.sendable.valid.fits.1
  rw [← h.size] at hfits
  rw [← hcontent]
  exact (h.whole (by simp [hentry])).content hfits

/-- The consumer is given what is committed first. -/
theorem Ok.delivered_prefix (h : Ok dp knownTypes self file s)
    (hwhich : which < self.numRegions.toNat) :
    (s.bus.parties which).delivered.map some <+:
      (s.bus.parties which).messages.map Message.entry :=
  (h.regions which hwhich).bus.ordered

theorem Ok.delivered_length_le (h : Ok dp knownTypes self file s)
    (hwhich : which < self.numRegions.toNat) :
    (s.bus.parties which).delivered.length ≤ (s.sent which).length := by
  have hle := (h.delivered_prefix hwhich).length_le
  rwa [List.length_map, List.length_map, ← (h.occupied which).length_eq] at hle

/-- What has been passed on is told apart as what has been sent. -/
theorem Ok.passedOn_infos (h : Ok dp knownTypes self file s)
    (hwhich : which < self.numRegions.toNat) (deeppack : Sink.Deeppack) :
    (s.bus.parties which).delivered.map (fun raw => (deeppack.preparseMessage raw).2) =
      (s.passedOn which).map (Sent.info dp) := by
  have hoccupied := h.occupied which
  have hle := h.delivered_length_le hwhich
  obtain ⟨rest, hordered⟩ := h.delivered_prefix hwhich
  apply List.ext_getElem
  · simp [System.passedOn, hle]
  · intro i hi hi'
    rw [List.length_map] at hi
    have hlt := hi.trans_le hle
    have hmessage := List.getElem?_eq_getElem (hoccupied.length_eq ▸ hlt)
    have hcarried := hoccupied.carried i _ _ (List.getElem?_eq_getElem hlt) hmessage
    have hentry := congrArg (fun entries => entries[i]?) hordered
    have hin : i < ((s.bus.parties which).delivered.map some).length := by rwa [List.length_map]
    simp only [List.getElem?_append_left hin, List.getElem?_map, hmessage,
      List.getElem?_eq_getElem hi,
      Option.map_some, Option.some.injEq] at hentry
    obtain ⟨filler, hcontent⟩ := hcarried.content hentry.symm
    simp only [List.getElem_map, System.passedOn, List.getElem_take, hcontent]
    exact hcarried.sendable.valid.preparsed deeppack filler

/-- A slot that has not been passed on and that no thread holds is committed. -/
theorem Ok.committed_of_free (h : Ok dp knownTypes self file s)
    (hwhich : which < self.numRegions.toNat) {i : Nat} {message : Message}
    (hi : (s.bus.parties which).messages[i]? = some message)
    (hbehind : (s.bus.parties which).delivered.length ≤ i) (hfree : ¬s.Held which i) :
    message.stage = .committed := by
  obtain ⟨old, done, todo, batch, rest, hinv⟩ := (h.regions which hwhich).bus
  have hmessages : (s.bus.parties which).messages = (old ++ done ++ todo) ++ (batch ++ rest) := by
    have hcut := hinv.messages
    rwa [List.append_assoc _ batch rest] at hcut
  have hdelivered : (s.bus.parties which).delivered.length = (old ++ done ++ todo).length := by
    have hlength := congrArg List.length hinv.delivered
    rwa [List.length_map] at hlength
  have hmem : message ∈ batch ++ rest := by
    have hright := hi
    rw [hmessages, List.getElem?_append_right (by omega)] at hright
    exact List.mem_of_getElem? hright
  rcases List.mem_append.mp hmem with hmem | hmem
  · exact hinv.batch_committed message hmem
  · rcases hinv.rest_open message hmem with hstage | hstage | hstage
    · obtain ⟨p, hp⟩ := (h.occupied which).reserved i message hi hstage
      exact absurd ⟨p, .inl hp⟩ hfree
    · obtain ⟨p, m, o, hp⟩ := (h.occupied which).headed i message hi hstage
      exact absurd ⟨p, .inr ⟨m, o, hp⟩⟩ hfree
    · exact hstage

/-- Everything in front of the first slot that a thread holds is due. -/
theorem Ok.drained (h : Ok dp knownTypes self file s) (hwhich : which < self.numRegions.toNat)
    {t : Shared} (hdrained : WholeBus.Drained (s.bus.shared self which) t) {i : Nat}
    (hi : i < (s.sent which).length) (hfree : ∀ j ≤ i, ¬s.Held which j) :
    i < t.bus.delivered.length := by
  have hlength := (h.occupied which).length_eq
  set delivered := (s.bus.parties which).delivered.length with hdelivered
  by_cases hlt : i < delivered
  · rw [hdrained, List.length_append]
    exact Nat.lt_add_right _ hlt
  · have hall : ∀ message ∈
        ((s.bus.parties which).messages.drop delivered).take (i + 1 - delivered),
        message.stage = .committed := by
      intro message hmem
      obtain ⟨j, hj⟩ := List.getElem?_of_mem hmem
      have hjlt : j < i + 1 - delivered := by
        have hlen := (List.getElem?_eq_some_iff.mp hj).1
        rw [List.length_take] at hlen
        omega
      rw [List.getElem?_take_of_lt hjlt, List.getElem?_drop] at hj
      exact h.committed_of_free hwhich hj (by omega) (hfree _ (by omega))
    have htake : (Mpsc.due ((s.bus.parties which).messages.drop delivered)).take
        (i + 1 - delivered) =
        ((s.bus.parties which).messages.drop delivered).take (i + 1 - delivered) := by
      rw [Mpsc.due, List.take_takeWhile, List.takeWhile_eq_self_iff]
      simpa using hall
    have hle := congrArg List.length htake
    rw [List.length_take, List.length_take, List.length_drop] at hle
    rw [hdrained, List.length_append, List.length_map]
    show i < delivered + (Mpsc.due ((s.bus.parties which).messages.drop delivered)).length
    omega

end Arrival

/-! ## Every bus that has been created -/

theorem run_consume {dp : SpanPrimitives} {partly : Bytes → Nat → Nat} {self : Handle} {s : System}
    {k : Nat} {b : WholeBus} (h : WholeBus.run self (List.replicate k .consume) s.bus = some b) :
    s.run dp partly self (List.replicate k .consume) = some { s with bus := b } := by
  induction k generalizing s with
  | zero =>
    cases h
    rfl
  | succ k ih =>
    obtain ⟨b₁, hstep, hrest⟩ := Runs.run_cons_eq_some.mp h
    refine Runs.run_cons_eq_some.mpr ⟨{ s with bus := b₁ }, ?_, ih hrest⟩
    rw [System.step, hstep, Option.map_some]

section Created

variable {codec : Mpsc.InfoCodec} {epoch : Mpsc.ClockEpoch} {backing : Mpsc.Backing}
  {numRegions regionSize : UInt32} {lockState : Mpsc.LockKind} {self : Handle} {file : File}
  {dp : SpanPrimitives} {knownTypes : Nat → Option Kind} {partly : Bytes → Nat → Nat}
  (h : Mpsc.mpscBus codec epoch backing numRegions regionSize lockState = .ok (self, file))
include h

theorem start_ok : Ok dp knownTypes self file (.start file) := by
  refine ⟨WholeBus.start_sound h, fun which hwhich => ?_, fun which => ?_⟩
  · have hpos := (Mpsc.mpscBus_created h).regionEnd_spec.2.2.1
    have hstart : (System.start file).bus.shared self which = .init :=
      WholeBus.start_shared h hwhich
    rw [hstart]
    exact Mpsc.Shared.init_ok hpos
  · refine ⟨rfl, fun i m message hm => ?_, fun p => rfl, fun i message hi => ?_,
      fun i message hi => ?_⟩
    · cases hm
    · cases hi
    · cases hi

variable (hsize : regionSize.toNat ≤ 0xe0000000) {ops : List Op}
  (hvalid : ∀ op ∈ ops, ∀ m ∈ op.message, m.Valid dp knownTypes)
  (hfresh : Runs.Along (System.step dp partly self) (Op.Fresh dp partly self) ops (.start file))
  {s : System} (hrun : (System.start file).run dp partly self ops = some s)
include hfresh hrun

omit h in
/-- The run of the bus. -/
theorem run_onBus : ∃ busOps, WholeBus.run self busOps (.start file) = some s.bus ∧
    Runs.Along (WholeBus.step self) (WholeBus.Op.Fresh self) busOps (.start file) := by
  have htrue : ∀ (op : Op) (s s' : System), Op.Fresh dp partly self op s → True →
      s.step dp partly self op = some s' → True := fun _ _ _ _ _ _ => trivial
  have hpart : ∀ (op : Op) (s s' : System), Op.Fresh dp partly self op s → True →
      s.step dp partly self op = some s' →
      WholeBus.run self (s.onBus dp partly op).toList s.bus = some s'.bus :=
    fun _ _ _ _ _ hs => step_onBus hs
  exact ⟨_, Runs.project htrue hpart hfresh trivial hrun,
    Runs.Along.trace htrue hpart (fun op s access hf _ hseen => hf access hseen) hfresh trivial
      hrun⟩

include hvalid hsize

theorem run_ok : Ok dp knownTypes self file s :=
  (start_ok h).run (Mpsc.mpscBus_fit h hsize) hvalid hfresh hrun

/-- A call of `consume_messages` that nobody interrupts passes on what no thread holds back. -/
theorem consume_drains (hnone : s.bus.reading = none) : ∃ k s',
    s.run dp partly self (List.replicate k .consume) = some s' ∧ s'.bus.reading = none ∧
    s'.sent = s.sent ∧ ∀ which < self.numRegions.toNat, ∀ i < (s.sent which).length,
      (∀ j ≤ i, ¬s.Held which j) → i < (s'.bus.parties which).delivered.length := by
  have hfit := Mpsc.mpscBus_fit h hsize
  have hok := run_ok h hsize hvalid hfresh hrun
  obtain ⟨busOps, hbus, -⟩ := run_onBus hfresh hrun
  have hturn : WholeBus.Turn self (.start file) := fun _ _ hne => absurd rfl hne
  obtain ⟨k, b, hconsume, hidle, hdrained⟩ := hok.sound.consumeMessages hfit hnone
    (hturn.run hbus) fun which hwhich => (hok.regions which hwhich).bus
  exact ⟨k, { s with bus := b }, run_consume hconsume, hidle, rfl,
    fun which hwhich i hi hfree => hok.drained hwhich (hdrained which hwhich) hi hfree⟩

/-- However the threads and the consumer take turns: what the consumer has been given of a region
is told apart as the messages that were sent there, whole, once each and in their order; and an
uninterrupted call of `consume_messages` passes on everything in front of the first slot that a
thread still holds. -/
theorem sent_messages_arrive (deeppack : Sink.Deeppack) :
    (∀ which < self.numRegions.toNat,
      (s.bus.parties which).delivered.map (fun raw => (deeppack.preparseMessage raw).2) =
        (s.passedOn which).map (Sent.info dp)) ∧
    (s.bus.reading = none → ∃ k s', s.run dp partly self (List.replicate k .consume) = some s' ∧
      s'.bus.reading = none ∧ s'.sent = s.sent ∧
      ∀ which < self.numRegions.toNat, ∀ i < (s.sent which).length,
        (∀ j ≤ i, ¬s.Held which j) → (s'.passedOn which)[i]? = (s.sent which)[i]?) := by
  have hok := run_ok h hsize hvalid hfresh hrun
  refine ⟨fun which hwhich => hok.passedOn_infos hwhich deeppack, fun hnone => ?_⟩
  obtain ⟨k, s', hconsume, hidle, hsent, hdue⟩ :=
    consume_drains h hsize hvalid hfresh hrun hnone
  refine ⟨k, s', hconsume, hidle, hsent, fun which hwhich i hi hfree => ?_⟩
  rw [System.passedOn, hsent]
  exact List.getElem?_take_of_lt (hdue which hwhich i hi hfree)

end Created

/-! ## Sample -/

/-- The end of a span. -/
def sampleMessage : Sent := .spanEnd ⟨Codec.sampleContext.span, 2000⟩

theorem sampleMessage_sendable : Sendable Codec.plainSpans Kind.ofId sampleMessage :=
  ⟨trivial, by decide⟩

/-- A thread sends it, and nobody interrupts. -/
def sampleOps : List Op :=
  .send 3 sampleMessage 0 ::
    List.replicate ((sampleMessage.bytes Codec.plainSpans).length + 5) (.next 3 false)

theorem sampleOps_valid :
    ∀ op ∈ sampleOps, ∀ m ∈ op.message, m.Valid Codec.plainSpans Kind.ofId := by
  intro op hop m hm
  rcases List.mem_cons.mp hop with rfl | hop
  · cases hm
    exact sampleMessage_sendable.valid
  · rw [List.eq_of_mem_replicate hop] at hm
    cases hm

theorem sampleOps_run : ∃ self file s,
    Mpsc.mpscBus Mpsc.plainInfo Mpsc.sampleEpoch Mpsc.newFile 2 4096 .exclusive = .ok (self, file) ∧
    self.numRegions.toNat = 2 ∧
    Runs.Along (System.step Codec.plainSpans (fun _ _ => 0) self)
      (Op.Fresh Codec.plainSpans (fun _ _ => 0) self) sampleOps (.start file) ∧
    (System.start file).run Codec.plainSpans (fun _ _ => 0) self sampleOps = some s ∧
    s.bus.reading = none ∧ s.sent 0 = [sampleMessage] ∧ (∀ p, s.producers 0 p = .idle) ∧
    ∀ p, s.threads p = .idle := by
  have haccepted : Mpsc.Accepted 2 4096 := by decide
  obtain ⟨self, file, h⟩ := Mpsc.mpscBus_newFile haccepted
  have hcreated := Mpsc.mpscBus_created h
  have hnum : self.numRegions = 2 := hcreated.numRegions_eq
  have hend : self.regionEnd = 4032 := hcreated.regionEnd_spec.1.trans (by decide)
  have hwhich : 0 < self.numRegions.toNat := by
    rw [hnum]
    decide
  have hstart : (System.start file).bus.shared self 0 = .init := WholeBus.start_shared h hwhich
  have hsend : (System.start file).step Codec.plainSpans (fun _ _ => 0) self
      (.send 3 sampleMessage 0) = some ((System.start file).enter 3
        (.allocating sampleMessage 0 0)) := by
    have hfirst : (Mpsc.hashToIndex 0 self.numRegions).toNat = 0 := by
      rw [hnum]
      decide
    simp only [System.step, System.start,
      if_neg (Nat.not_lt.mpr sampleMessage_sendable.size), hfirst]
  obtain ⟨pos, hroom⟩ := Option.isSome_iff_exists.mp (show (Mpsc.place 4032 0 0
    (allocSizeOf (sampleMessage.msgSize Codec.plainSpans))).isSome by decide)
  obtain ⟨s, hleaves, hthread, hsent, hproducer⟩ := send_alone (fun _ _ => 0)
    (s := (System.start file).enter 3 (.allocating sampleMessage 0 0))
    (Mpsc.mpscBus_fit h (by decide)) (WholeBus.start_sound h) hwhich
    (Function.update_self ..) rfl sampleMessage_sendable (by
      show Mpsc.place self.regionEnd ((System.start file).bus.shared self 0).bus.region.readPtr
        ((System.start file).bus.shared self 0).bus.region.allocPtr _ = some pos
      rw [hstart, hend]
      exact hroom)
  refine ⟨self, file, s, h, by rw [hnum]; decide, ⟨?_, ?_⟩,
    Runs.run_cons_eq_some.mpr ⟨_, hsend, hleaves.run⟩, hleaves.reading, ?_, ?_, ?_⟩
  · intro access hno
    cases hno
  · intro s' hs'
    cases hsend.symm.trans hs'
    exact hleaves.fresh
  · rw [hsent]
    exact Function.update_self ..
  · intro p
    by_cases hp : p = 3
    · rw [hp, hproducer]
    · rw [(hleaves.others p hp).2]
      rfl
  · intro p
    by_cases hp : p = 3
    · rw [hp, hthread]
    · rw [(hleaves.others p hp).1]
      exact Function.update_of_ne hp ..

theorem sent_messages_arrive_sample : ∃ self file s k s',
    Mpsc.mpscBus Mpsc.plainInfo Mpsc.sampleEpoch Mpsc.newFile 2 4096 .exclusive = .ok (self, file) ∧
    (System.start file).run Codec.plainSpans (fun _ _ => 0) self sampleOps = some s ∧
    s.run Codec.plainSpans (fun _ _ => 0) self (List.replicate k .consume) = some s' ∧
    (s'.passedOn 0)[0]? = some sampleMessage := by
  obtain ⟨self, file, s, h, hnum, hfresh, hrun, hreading, hsent, hproducers, hthreads⟩ :=
    sampleOps_run
  obtain ⟨-, harrive⟩ := sent_messages_arrive h (by decide) sampleOps_valid hfresh hrun .ofCbor
  obtain ⟨k, s', hconsume, -, -, hpassed⟩ := harrive hreading
  refine ⟨self, file, s, k, s', h, hrun, hconsume, ?_⟩
  rw [hpassed 0 (by omega) 0 (by simp [hsent]) ?_, hsent]
  · rfl
  · rintro j - ⟨p, hp | ⟨m, o, hp⟩⟩
    · rw [hproducers] at hp
      cases hp
    · rw [hthreads] at hp
      cases hp

end Deeplog.Threads

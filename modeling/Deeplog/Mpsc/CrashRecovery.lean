import Deeplog.Mpsc.Delivery

/-!
# Recovery of a whole bus

A crash leaves the file as it is between two accesses. As long as no producer has stopped between
its exchange and the header store, recovery finds in every region all that is committed and has
not been passed on, behind messages of the one batch that the consumer was handing back.
-/

namespace Deeplog.Mpsc

/-! ## Bytes outside of the data area -/

section Congr

variable {regionEnd : Nat} {region region' : Region}

/-- Nothing outside of the data area belongs to a slot. -/
theorem Pool.congr (hE : regionEnd % 4 = 0) {ms : List Message} (h : Pool regionEnd region ms)
    (hread : region'.readPtr = region.readPtr) (halloc : region'.allocPtr = region.allocPtr)
    (hdata : ∀ x < regionEnd, region'.data x = region.data x) : Pool regionEnd region' ms where
  read_lt := hread ▸ h.read_lt
  read_aligned := hread ▸ h.read_aligned
  alloc_aligned := halloc ▸ h.alloc_aligned
  chain := by rw [hread, halloc]; exact h.chain
  room := h.room
  placed := h.placed
  head m hm := (h.head m hm).congr fun x hx => hdata x (h.inside hE hm hx).1
  payload m hm := (h.payload m hm).congr fun x hx => hdata x (h.inside hE hm hx).1
  free p hp ha hfree := by
    have hword : loadWord region'.data p = loadWord region.data p :=
      loadWord_congr fun o ho => hdata _ (by omega)
    rw [hword]
    exact h.free p hp ha hfree

theorem Bus.Ok.congr (hE : regionEnd % 4 = 0) {b : Bus} (h : b.Ok regionEnd)
    (hread : region'.readPtr = b.region.readPtr) (halloc : region'.allocPtr = b.region.allocPtr)
    (hdata : ∀ x < regionEnd, region'.data x = b.region.data x) :
    ({ b with region := region' } : Bus).Ok regionEnd := by
  obtain ⟨old, done, todo, batch, rest, hinv⟩ := h
  exact ⟨old, done, todo, batch, rest, hinv.messages, hinv.released, hinv.cleared, hinv.delivered,
    hinv.old_cleared, hinv.batch_committed, hinv.rest_open, hinv.pool.congr hE hread halloc hdata,
    by rw [hread]; exact hinv.holds⟩

end Congr

/-! ## Batches -/

/-- The consumer holds no more than a batch. -/
def Shared.Bounded (s : Shared) : Prop := s.bus.consumer.infos.length ≤ consumeBatchSize

section Bounded

variable {regionEnd : Nat}

theorem Bus.consume_bounded {b b' : Bus} (h : b.consumer.infos.length ≤ consumeBatchSize)
    (hb : b.consume regionEnd = some b') : b'.consumer.infos.length ≤ consumeBatchSize := by
  unfold Bus.consume at hb
  split at hb <;> rename_i hc <;> rw [hc] at h
  case h_1 => cases hb; exact h
  case h_2 => split at hb <;> cases hb <;> exact Nat.zero_le _
  case h_3 infos =>
    split at hb
    case isTrue hroom =>
      simp only [Bus.scan] at hb
      split at hb
      · cases hb; exact h
      · split at hb
        · cases hb
          simp only [Consumer.infos, List.length_append, List.length_singleton]
          exact hroom
        · cases hb
    case isFalse => cases hb; exact h
  case h_4 =>
    split at hb
    · split at hb <;> cases hb <;> exact Nat.zero_le _
    · cases hb; exact h
  case h_5 => cases hb; exact h
  case h_6 => cases hb; exact h
  case h_7 =>
    cases hb
    exact (Nat.le_succ _).trans h

theorem Shared.Bounded.step {s s' : Shared} {access : Access} (h : s.Bounded)
    (hs : s.step regionEnd access = some s') : s'.Bounded := by
  by_cases hproducer : access.OfProducer
  · rw [Bounded, Shared.step_consumer hproducer hs]
    exact h
  · cases access with
    | consume =>
      obtain ⟨bus, hb, rfl⟩ := Option.map_eq_some_iff.mp hs
      exact Bus.consume_bounded h hb
    | _ => exact absurd trivial hproducer

theorem Shared.Bounded.run {s s' : Shared} {accesses : List Access} (h : s.Bounded)
    (hrun : Shared.run regionEnd accesses s = some s') : s'.Bounded :=
  Runs.invariant (fun _ _ _ _ h hs => h.step hs) (.of_forall fun _ _ _ => trivial) h hrun

/-- What has been passed on and not been handed back is in the hands of the consumer. -/
theorem Inv.todo_length {b : Bus} {old done todo batch rest : List Message}
    (h : Inv regionEnd b old done todo batch rest) : todo.length ≤ b.consumer.infos.length := by
  have hholds := h.holds
  cases hc : b.consumer <;> rw [hc] at hholds
  case idle => simp [hholds.2.1]
  case loaded => simp [hholds.2.2.1]
  case scanning => simp [hholds.2.1]
  case gathered => simp [hholds.2.1]
  case marking => simp [Consumer.infos, hholds.2.2.1]
  case clearing =>
    obtain ⟨-, -, m, tail, rfl, -, -, rfl, -, -⟩ := hholds
    simp [Consumer.infos]

end Bounded

/-! ## One region -/

section Region

variable {regionEnd : Nat} (hE : regionEnd % 4 = 0) (skipItem : Bytes → Bool) {b : Bus}
include hE

/-- Where every slot has its header, everything that is committed is found: messages of the batch
that is being handed back, and all that has not been passed on. -/
theorem Bus.Ok.recovered_headed (h : b.Ok regionEnd)
    (hbounded : b.consumer.infos.length ≤ consumeBatchSize)
    (hheaded : ∀ m ∈ b.pending, m.stage ≠ .reserved) :
    ∃ again, again.Sublist b.delivered ∧ again.length ≤ consumeBatchSize ∧
      (recoverRegion skipItem regionEnd b.region).flatten =
        again ++ found skipItem (b.messages.drop b.delivered.length) := by
  have hall : (recoverRegion skipItem regionEnd b.region).flatten = found skipItem b.pending := by
    rcases h.recovered skipItem hE with ⟨-, -, hall⟩ | ⟨hne, -⟩
    · exact hall
    · refine absurd (List.dropWhile_eq_nil_iff.mpr fun m hm => ?_) hne
      simpa using h.pending_pool.passes hE hm (hheaded m hm)
  obtain ⟨old, done, todo, batch, rest, hinv⟩ := h
  have hdone : found skipItem done = [] := by
    have hnone : (done.filter fun m => m.Recoverable skipItem) = [] := by
      rw [List.filter_eq_nil_iff]
      intro m hm
      simp [Message.Recoverable, hinv.old_cleared m (by simp [hm])]
    rw [found, hnone]
    rfl
  have hdrop : b.messages.drop b.delivered.length = batch ++ rest := by
    simp [hinv.messages, hinv.delivered]
  refine ⟨found skipItem todo, ?_, ?_, ?_⟩
  · rw [hinv.delivered, List.map_append]
    exact ((List.filter_sublist).map _).trans (List.sublist_append_right _ _)
  · have hle : (found skipItem todo).length ≤ todo.length := by
      simpa only [found, List.length_map] using List.length_filter_le _ todo
    exact hle.trans (hinv.todo_length.trans hbounded)
  · rw [hall, hinv.pending_eq, hdrop]
    simp only [found_append, hdone, List.nil_append, List.append_assoc]

/-- Where the walk stops in time, nothing is found that is not committed. -/
theorem Bus.Ok.recovered_committed (h : b.Ok regionEnd) (hstops : b.WalkStops regionEnd) :
    (recoverRegion skipItem regionEnd b.region).flatten.Sublist b.committed := by
  rw [h.committed_eq]
  rcases h.recovered skipItem hE with ⟨-, -, hall⟩ | ⟨-, more, hmore, hnone⟩
  · rw [hall]
    exact found_sublist skipItem (List.Sublist.refl _)
  · rw [hmore, hnone hstops, List.append_nil]
    exact (List.take_sublist _ _).trans (found_sublist skipItem (List.takeWhile_sublist _))

end Region

/-! ## The file -/

/-- A region as it lies in the file, with its parties. -/
def WholeBus.bus (self : Handle) (s : WholeBus) (which : Nat) : Bus :=
  { (s.shared self which).bus with region := self.region s.file which }

section Created

variable {codec : InfoCodec} {epoch : ClockEpoch} {backing : Backing}
  {numRegions regionSize : UInt32} {lockState : LockKind} {self : Handle} {file : File}
  (h : mpscBus codec epoch backing numRegions regionSize lockState = .ok (self, file))
  (hsize : regionSize.toNat ≤ 0xe0000000) {ops : List WholeBus.Op}
  (hfresh : Runs.Along (WholeBus.step self) (WholeBus.Op.Fresh self) ops (.start file))
  {s : WholeBus} (hrun : WholeBus.run self ops (.start file) = some s)
include h hsize hfresh hrun

theorem mpscBus_bus_ok {which : Nat} (hwhich : which < self.numRegions.toNat) :
    (s.bus self which).Ok self.regionEnd := by
  have hok := (mpscBus_ok h hsize hfresh hrun hwhich).bus
  refine hok.congr (mpscBus_fit h hsize).aligned rfl rfl fun x hx => ?_
  simp only [WholeBus.shared, Handle.window, if_pos hx]

theorem mpscBus_bounded {which : Nat} (hwhich : which < self.numRegions.toNat) :
    (s.bus self which).consumer.infos.length ≤ consumeBatchSize := by
  obtain ⟨accesses, -, hregion, -⟩ := mpscBus_region h hsize hfresh hrun hwhich
  have hinit : Shared.init.Bounded := Nat.zero_le _
  exact hinit.run hregion

omit hfresh in
/-- Recovery reads the head of the file and walks through every region. -/
theorem mpscBus_recovers (skipItem : Bytes → Bool) {crashed : Backing}
    (hfile : crashed.file = s.file) (hopen : crashed.valid = true ∧ crashed.writable = true)
    (hcalls : crashed.lockFile = true ∧ crashed.maximumExtent = true) (kind : LockKind) :
    recoverMpscBus codec skipItem crashed kind =
      .ok ((List.range self.numRegions.toNat).flatMap fun which =>
        recoverRegion skipItem self.regionEnd (self.region s.file which)) := by
  have hsound := (WholeBus.start_sound h).run (mpscBus_fit h hsize) hrun
  have hhead : readHead codec s.file = .ok self := by
    have hround := (mpscBus_created h).accepted.realRegionSize_spec.2.1
    rw [(mpscBus_created h).readHead_eq hsound.size hsound.head]
    unfold pageSize at *
    exact if_neg (by omega)
  simp [recoverMpscBus, hopen, hcalls, hfile, hhead, Except.map]

/-- The file that a crash leaves at any moment is recovered: from every region comes what is
committed there, and where no producer has stopped between its exchange and the header store,
that is all that the consumer has not been given, behind some messages of its last batch. -/
theorem whole_bus_recovered (skipItem : Bytes → Bool) {crashed : Backing}
    (hfile : crashed.file = s.file) (hopen : crashed.valid = true ∧ crashed.writable = true)
    (hcalls : crashed.lockFile = true ∧ crashed.maximumExtent = true) (kind : LockKind) :
    ∃ recovered : Nat → List (List Bytes),
      recoverMpscBus codec skipItem crashed kind =
        .ok ((List.range self.numRegions.toNat).flatMap recovered) ∧
      ∀ which < self.numRegions.toNat,
        ((s.bus self which).WalkStops self.regionEnd →
          (recovered which).flatten.Sublist (s.bus self which).committed) ∧
        ((∀ m ∈ (s.bus self which).pending, m.stage ≠ .reserved) →
          ∃ again, again.Sublist (s.bus self which).delivered ∧
            again.length ≤ consumeBatchSize ∧
            (recovered which).flatten = again ++ found skipItem
              ((s.bus self which).messages.drop (s.bus self which).delivered.length)) := by
  have hfit := mpscBus_fit h hsize
  refine ⟨fun which => recoverRegion skipItem self.regionEnd (self.region s.file which),
    mpscBus_recovers h hsize hrun skipItem hfile hopen hcalls kind, fun which hwhich => ?_⟩
  have hok := mpscBus_bus_ok h hsize hfresh hrun hwhich
  exact ⟨hok.recovered_committed hfit.aligned skipItem,
    hok.recovered_headed hfit.aligned skipItem (mpscBus_bounded h hsize hfresh hrun hwhich)⟩

end Created

theorem whole_bus_recovered_sample : ∃ self file s,
    mpscBus plainInfo sampleEpoch newFile 2 4096 .exclusive = .ok (self, file) ∧
    WholeBus.run self (sampleAccesses.map (.access 1)) (.start file) = some s ∧
    ∃ recovered : Nat → List (List Bytes),
      recoverMpscBus plainInfo skipsItem { newFile with file := s.file } .unlocked =
        .ok ((List.range self.numRegions.toNat).flatMap recovered) ∧
      (recovered 1).flatten = found skipsItem (s.bus self 1).messages := by
  obtain ⟨self, file, s, t, h, hnum, hend, hrun, ht, hshared, -⟩ := sampleAccesses_run
  obtain ⟨recovered, hrecovered, hregions⟩ :=
    whole_bus_recovered h (by decide) (sampleAccesses_fresh h hnum hend) hrun skipsItem
      (show ({ newFile with file := s.file } : Backing).file = s.file from rfl) ⟨rfl, rfl⟩
      ⟨rfl, rfl⟩ .unlocked
  obtain ⟨hnothing, -, hstages⟩ := sampleAccesses_region ht
  have hbus : (s.bus self 1).messages = t.bus.messages ∧ (s.bus self 1).delivered = [] ∧
      (s.bus self 1).pending = t.bus.pending := by
    simp only [WholeBus.bus, Bus.pending, hshared, hnothing, and_self]
  have hheaded : ∀ m ∈ (s.bus self 1).pending, m.stage ≠ .reserved := by
    intro m hm
    rw [hbus.2.2] at hm
    have hstage := List.mem_map_of_mem (f := Message.stage) hm
    rw [hstages, List.mem_singleton] at hstage
    rw [hstage]
    decide
  obtain ⟨again, hsub, -, hall⟩ := (hregions 1 (by omega)).2 hheaded
  rw [hbus.2.1] at hsub hall
  rw [List.sublist_nil.mp hsub, List.nil_append, List.length_nil, List.drop_zero] at hall
  exact ⟨self, file, s, h, hrun, recovered, hrecovered, hall⟩

end Deeplog.Mpsc

import Deeplog.Mpsc.Atomic
import Deeplog.Mpsc.Isolation

/-!
# What the whole bus delivers

As long as every exchange that succeeds has its room at that moment, all regions of a bus are
queues at the same time: their slots share no byte of the file, what the consumer has been given
of a region is what was committed there first, with the bytes that its producers wrote, and a call
of `consume_messages` that nobody interrupts passes on what is due in every region.
-/

namespace Deeplog.Mpsc

namespace WholeBus

variable {self : Handle} {file : File} {s s' : WholeBus} {which other : Nat}
  {ops : List WholeBus.Op}

/-- A `compare_exchange` that succeeds would also be tried with the read hand of this moment. -/
def Op.Fresh (self : Handle) (op : Op) (s : WholeBus) : Prop :=
  match op with
  | .access which a => a.Fresh self.regionEnd (s.shared self which)
  | .createSpan _ | .consume => True

/-! ## Regions -/

theorem Op.Fresh.seen {op : Op} {access : Access} (h : op.Fresh self s)
    (hseen : s.seen self which op = some access) :
    access.Fresh self.regionEnd (s.shared self which) := by
  cases op with
  | createSpan request => cases hseen
  | access regionId a =>
    simp only [WholeBus.seen] at hseen
    split at hseen
    case isTrue hin =>
      cases hseen
      rw [← hin.1]
      exact h
    case isFalse => cases hseen
  | consume =>
    simp only [WholeBus.seen] at hseen
    split at hseen
    · cases hseen
      trivial
    · cases hseen

theorem Sound.accesses_fresh (hfit : Fit self file) (h : Sound self file s)
    (hrun : WholeBus.run self ops s = some s')
    (hfresh : Runs.Along (WholeBus.step self) (Op.Fresh self) ops s)
    (hwhich : which < self.numRegions.toNat) :
    Runs.Along (Shared.step self.regionEnd) (Access.Fresh self.regionEnd)
      (accesses self which ops s) (s.shared self which) :=
  Runs.Along.trace (fun _ _ _ _ h hs => h.step hfit hs)
    (fun _ _ _ _ h hs => h.step_region hfit hs hwhich) (fun _ _ _ hf _ hseen => hf.seen hseen)
    hfresh h hrun

/-! ## Slots in the file -/

/-- The messages of all regions that are not released, each with its region. -/
def slots (self : Handle) (s : WholeBus) : List (Nat × Message) :=
  (List.range self.numRegions.toNat).flatMap fun which =>
    (s.shared self which).bus.pending.map (which, ·)

/-- A slot covers a byte of the file. -/
def Covers (self : Handle) (slot : Nat × Message) (x : Nat) : Prop :=
  ∃ o, slot.2.Covers o ∧ x = self.regionAddress slot.1 + regionCtrlOverhead + o

/-- The slots share no byte of the file and lie behind its head area. -/
def Apart (self : Handle) (s : WholeBus) : Prop :=
  (s.slots self).Pairwise (fun a b => ∀ x, Covers self a x → ¬Covers self b x) ∧
    ∀ slot ∈ s.slots self, ∀ x, Covers self slot x → headAreaSize ≤ x ∧ x < s.file.size

theorem mem_slots {slot : Nat × Message} : slot ∈ s.slots self ↔
    slot.1 < self.numRegions.toNat ∧ slot.2 ∈ (s.shared self slot.1).bus.pending := by
  obtain ⟨which, m⟩ := slot
  simp [slots]

/-- A slot inside of its region covers bytes of this region of the file. -/
theorem Covers.inside (hself : self.Roomy) {slot : Nat × Message} {x : Nat}
    (hin : ∀ o, slot.2.Covers o → o < self.regionEnd) (hx : Covers self slot x) :
    self.regionAddress slot.1 ≤ x ∧ x < self.regionAddress slot.1 + self.regionSize.toNat := by
  obtain ⟨o, ho, rfl⟩ := hx
  have hlt := hin o ho
  have hsize := hself.regionSize_eq
  omega

theorem Sound.apart (hfit : Fit self file) (h : Sound self file s)
    (hok : ∀ which < self.numRegions.toNat, (s.shared self which).Apart self.regionEnd) :
    s.Apart self := by
  have hinside : ∀ slot ∈ s.slots self, ∀ x, Covers self slot x →
      self.regionAddress slot.1 ≤ x ∧
        x < self.regionAddress slot.1 + self.regionSize.toNat := fun slot hslot x hx =>
    hx.inside hfit.roomy ((hok slot.1 (mem_slots.mp hslot).1).2 slot.2 (mem_slots.mp hslot).2)
  constructor
  · refine List.pairwise_flatMap.mpr ⟨fun which hwhich => ?_, ?_⟩
    · -- within a region
      refine List.pairwise_map.mpr ((hok which (List.mem_range.mp hwhich)).1.imp ?_)
      rintro m n hmn x ⟨o, ho, rfl⟩ ⟨o', ho', heq⟩
      simp only at heq
      obtain rfl : o = o' := by omega
      exact hmn o ho ho'
    · -- between regions
      refine List.Pairwise.imp_of_mem ?_ List.nodup_range
      intro which other hwhich hother hne a ha b hb x hxa hxb
      obtain ⟨m, hm, rfl⟩ := List.mem_map.mp ha
      obtain ⟨n, hn, rfl⟩ := List.mem_map.mp hb
      have hslot : (which, m) ∈ s.slots self := mem_slots.mpr ⟨List.mem_range.mp hwhich, hm⟩
      have hslot' : (other, n) ∈ s.slots self := mem_slots.mpr ⟨List.mem_range.mp hother, hn⟩
      have hxa := hinside (which, m) hslot x hxa
      have hxb := hinside (other, n) hslot' x hxb
      have hapart := self.regionAddress_apart hne
      simp only at hxa hxb
      omega
  · intro slot hslot x hx
    have hin := hinside slot hslot x hx
    have hle := self.regionAddress_le (mem_slots.mp hslot).1
    have hhead : headAreaSize ≤ self.regionAddress slot.1 := Nat.le_add_right _ _
    rw [h.size, hfit.size]
    omega

/-! ## Writes -/

/-- The value a step writes to byte `o` of the payload of message `i` of a region. -/
def Op.wrote (which i o : Nat) : Op → Option UInt8
  | .access regionId (.write j p value) =>
    if regionId = which ∧ j = i ∧ p = o then some value else none
  | _ => none

/-- The value that the last such write of a run leaves there. -/
def lastWrite (which i o : Nat) (ops : List Op) : Option UInt8 :=
  ops.reverse.findSome? (Op.wrote which i o)

end WholeBus

theorem Bus.lastWrite_eq (i o : Nat) (ops : List Bus.Op) :
    Bus.lastWrite i o ops = ops.reverse.findSome? (Bus.Op.wrote i o) := by
  induction ops with
  | nil => rfl
  | cons op ops ih =>
    rw [Bus.lastWrite, ih, List.reverse_cons, List.findSome?_append, List.findSome?_singleton]

/-- The value an access writes. -/
def Access.wrote (i o : Nat) : Access → Option UInt8
  | .write j p value => if j = i ∧ p = o then some value else none
  | _ => none

theorem Access.op_wrote {regionEnd i o : Nat} (access : Access) (t : Shared) :
    (access.op regionEnd t).bind (Bus.Op.wrote i o) = access.wrote i o := by
  cases access with
  | exchange p spurious => simp only [Access.op]; grind [Bus.Op.wrote, Access.wrote]
  | storeHead p => simp only [Access.op]; grind [Bus.Op.wrote, Access.wrote]
  | _ => rfl

namespace WholeBus

variable {self : Handle} {file : File} {s s' : WholeBus} {which other : Nat}
  {ops : List WholeBus.Op}

theorem seen_wrote {i o : Nat} {op : Op} (hs : s.step self op = some s') :
    (s.seen self which op).bind (Access.wrote i o) = op.wrote which i o := by
  cases op with
  | createSpan request => rfl
  | access regionId access =>
    have hproducer : access.OfProducer := by
      simp only [WholeBus.step] at hs
      split at hs
      case isTrue hin => exact hin.2
      case isFalse => cases hs
    simp only [seen, hproducer, and_true]
    cases access <;> grind [Access.wrote, Op.wrote]
  | consume =>
    simp only [seen, Op.wrote]
    split_ifs <;> rfl

/-- What is written in a region, in the order in which it is written. -/
theorem lastWrite_region {regionEnd i o : Nat} {t t' : Shared}
    (hrun : run self ops s = some s')
    (hregion : Shared.run regionEnd (accesses self which ops s) t = some t') :
    Bus.lastWrite i o (Shared.ops regionEnd (accesses self which ops s) t) =
      lastWrite which i o ops := by
  rw [Bus.lastWrite_eq, lastWrite,
    Runs.findSome?_trace (fun access t _ _ => access.op_wrote t) hregion]
  exact Runs.findSome?_trace (fun _ _ _ hs => seen_wrote hs) hrun

end WholeBus

/-! ## The consumer's turn -/

/-- Producers leave the consumer where it is. -/
theorem Shared.step_consumer {regionEnd : Nat} {t t' : Shared} {access : Access}
    (hproducer : access.OfProducer) (h : t.step regionEnd access = some t') :
    t'.bus.consumer = t.bus.consumer := by
  cases access with
  | loadRead p n =>
    rcases loadRead_cases h with rfl | ⟨-, rfl⟩ <;> rfl
  | loadAlloc p =>
    obtain ⟨n, readHand, -, rfl⟩ := loadAlloc_cases h
    rfl
  | exchange p spurious =>
    obtain ⟨n, readHand, allocHand, -, rfl | ⟨-, -, -, bus, hb, rfl⟩ | rfl⟩ := exchange_cases h
    · rfl
    · obtain ⟨_, _, _, rfl⟩ := Bus.reserve_cases hb
      rfl
    · rfl
  | storeHead p =>
    obtain ⟨i, bus, hb, rfl⟩ := storeHead_cases h
    obtain ⟨_, _, _, rfl⟩ := Bus.storeHead_cases hb
    rfl
  | write i o value =>
    obtain ⟨bus, hb, rfl⟩ := Option.map_eq_some_iff.mp h
    obtain ⟨_, _, _, _, rfl⟩ := Bus.write_cases hb
    rfl
  | commit i =>
    obtain ⟨bus, hb, rfl⟩ := Option.map_eq_some_iff.mp h
    obtain ⟨_, _, _, rfl⟩ := Bus.commit_cases hb
    rfl
  | consume => exact hproducer.elim

/-- A call that nothing interrupts passes on what is due. -/
theorem Bus.Ok.readRegion_idle {regionEnd : Nat} (hE : regionEnd % 4 = 0) {b : Bus}
    (h : b.Ok regionEnd) (hidle : b.consumer = .idle) :
    ∃ fuel b', b.readRegion regionEnd fuel = some b' ∧ b'.delivered =
      b.delivered ++ (due (b.messages.drop b.delivered.length)).map Message.content := by
  obtain ⟨old, done, todo, batch, rest, hinv⟩ := h
  have hholds := hinv.holds
  rw [hidle] at hholds
  obtain ⟨rfl, rfl, rfl⟩ := hholds
  have hrest : b.messages.drop b.delivered.length = rest := by
    simp [hinv.messages, hinv.delivered]
  have hquiet : b.consumer.Quiet rest := by
    rw [hidle]
    trivial
  obtain ⟨b', hread, -, -, hdelivered⟩ := hinv.readRegion hE hquiet (Nat.lt_succ_self _)
  rw [hrest]
  exact ⟨_, b', hread, by simpa using hdelivered⟩

namespace WholeBus

variable {self : Handle} {file : File} {s s' : WholeBus} {which other : Nat} {t : Shared}

/-- The consumer is at work in no other region than the one that it is at. -/
def Turn (self : Handle) (s : WholeBus) : Prop :=
  ∀ which < self.numRegions.toNat, (s.parties which).consumer ≠ .idle → s.reading = some which

theorem parties_put (t : Shared) (which other : Nat) :
    ((s.put self which t).parties other).consumer =
      if which = other then t.bus.consumer else (s.parties other).consumer := by
  by_cases hne : which = other
  · subst hne
    simp [put]
  · simp [put, hne, Function.update_of_ne (Ne.symm hne)]

/-- A step of `read_region`. -/
theorem consume_of_reading (hreading : s.reading = some which)
    (hwhich : which < self.numRegions.toNat)
    (ht : (s.shared self which).step self.regionEnd .consume = some t) :
    s.step self .consume = some { s.put self which t with
      reading := some (if t.bus.consumer = .idle then which + 1 else which) } := by
  simp only [WholeBus.step, WholeBus.consume, hreading, if_pos hwhich, ht, Option.map_some]

theorem Turn.step {op : Op} (h : Turn self s) (hs : s.step self op = some s') : Turn self s' := by
  cases op with
  | createSpan request => cases hs; exact h
  | access which access =>
    simp only [WholeBus.step] at hs
    split at hs
    case isFalse => cases hs
    case isTrue hin =>
      obtain ⟨t, ht, rfl⟩ := Option.map_eq_some_iff.mp hs
      have hsame := Shared.step_consumer hin.2 ht
      intro other hother hne
      refine h other hother ?_
      rw [parties_put] at hne
      split_ifs at hne with hw
      · subst hw
        rwa [hsame] at hne
      · exact hne
  | consume =>
    cases hreading : s.reading with
    | none =>
      simp only [WholeBus.step, WholeBus.consume, hreading, Option.some.injEq] at hs
      subst hs
      intro other hother hne
      have hsome := h other hother hne
      rw [hreading] at hsome
      cases hsome
    | some which =>
      by_cases hwhich : which < self.numRegions.toNat
      · simp only [WholeBus.step, WholeBus.consume, hreading, if_pos hwhich] at hs
        obtain ⟨t, ht, rfl⟩ := Option.map_eq_some_iff.mp hs
        intro other hother hne
        simp only [parties_put] at hne
        split_ifs at hne with hw
        · subst hw
          simp only [if_neg hne]
        · exact absurd ((hreading.symm.trans (h other hother hne))) (by simpa using hw)
      · simp only [WholeBus.step, WholeBus.consume, hreading, if_neg hwhich,
          Option.some.injEq] at hs
        subst hs
        intro other hother hne
        obtain rfl := Option.some.inj (hreading.symm.trans (h other hother hne))
        exact absurd hother hwhich

theorem Turn.run {ops : List Op} (h : Turn self s) (hrun : WholeBus.run self ops s = some s') :
    Turn self s' :=
  Runs.invariant (fun _ _ _ _ h hs => Turn.step h hs) (.of_forall fun _ _ _ => trivial) h hrun

/-! ## Calls of `consume_messages` -/

/-- What the steps of the consumer lead to: region `which` as given, the others as before. -/
structure Reaches (bus : Handle) (file : File) (s : WholeBus) (k which : Nat) (s' : WholeBus) :
    Prop where
  run : WholeBus.run bus (List.replicate k .consume) s = some s'
  sound : Sound bus file s'
  reading : s'.reading = some (which + 1)
  others : ∀ other, which ≠ other → s'.shared bus other = s.shared bus other

/-- A call of `read_region` in the run of the bus. -/
theorem Sound.readRegion (hfit : Fit self file) (h : Sound self file s)
    (hreading : s.reading = some which) (hwhich : which < self.numRegions.toNat) {fuel : Nat}
    {b : Bus} (hread : (s.shared self which).bus.readRegion self.regionEnd fuel = some b) :
    ∃ k s', Reaches self file s k which s' ∧ (s'.shared self which).bus = b := by
  induction fuel generalizing s with
  | zero => cases hread
  | succ fuel ih =>
    obtain ⟨b₁, hstep, hrest⟩ := Option.bind_eq_some_iff.mp hread
    obtain ⟨t, ht, rfl⟩ : ∃ t, (s.shared self which).step self.regionEnd .consume = some t ∧
        t.bus = b₁ := ⟨{ s.shared self which with bus := b₁ },
      by simp only [Shared.step, hstep, Option.map_some], rfl⟩
    have hgo := consume_of_reading hreading hwhich ht
    have hsound := h.step hfit hgo
    have hshared : (s.put self which t).shared self which = t :=
      shared_put (by have := hfit.room; omega)
        ((h.confined which hwhich).step hfit.aligned hfit.room ht)
    split at hrest
    case h_1 hidle =>
      cases hrest
      refine ⟨1, _, ⟨Runs.run_cons_eq_some.mpr ⟨_, hgo, rfl⟩, hsound, ?_, fun other hne => ?_⟩, ?_⟩
      · simp only [hidle, if_true]
      · exact shared_put_of_ne hfit.roomy hne
      · exact congrArg Shared.bus hshared
    case h_2 hbusy =>
      rw [if_neg hbusy] at hgo hsound
      have hbus : ({ s.put self which t with reading := some which } : WholeBus).shared self which =
        t := hshared
      obtain ⟨k, s', hreaches, hend⟩ := ih hsound rfl (by rw [hbus]; exact hrest)
      refine ⟨k + 1, s', ⟨Runs.run_cons_eq_some.mpr ⟨_, hgo, hreaches.run⟩, hreaches.sound,
        hreaches.reading, fun other hne => ?_⟩, hend⟩
      rw [hreaches.others other hne]
      exact shared_put_of_ne hfit.roomy hne

/-- What a region has been drained to. -/
def Drained (t t' : Shared) : Prop :=
  t'.bus.delivered =
    t.bus.delivered ++ (due (t.bus.messages.drop t.bus.delivered.length)).map Message.content

/-- From a region on, one region after the other is drained. -/
theorem Sound.readRegions (hfit : Fit self file) (left : Nat) (h : Sound self file s)
    (hreading : s.reading = some which) (hleft : which + left = self.numRegions.toNat)
    (hok : ∀ other < self.numRegions.toNat, which ≤ other →
      (s.shared self other).bus.Ok self.regionEnd ∧ (s.parties other).consumer = .idle) :
    ∃ k s', WholeBus.run self (List.replicate k .consume) s = some s' ∧
      s'.reading = some self.numRegions.toNat ∧
      (∀ other < which, s'.shared self other = s.shared self other) ∧
      ∀ other < self.numRegions.toNat, which ≤ other →
        Drained (s.shared self other) (s'.shared self other) := by
  induction left generalizing s which with
  | zero =>
    rw [Nat.add_zero] at hleft
    refine ⟨0, s, rfl, hleft ▸ hreading, fun _ _ => rfl, fun other hlt hle => ?_⟩
    omega
  | succ left ih =>
    have hwhich : which < self.numRegions.toNat := by omega
    obtain ⟨hbus, hidle⟩ := hok which hwhich le_rfl
    obtain ⟨fuel, b, hread, hdelivered⟩ := hbus.readRegion_idle hfit.aligned hidle
    obtain ⟨k, s₁, hreaches, hend⟩ := h.readRegion hfit hreading hwhich hread
    have hsame : ∀ other, which ≠ other → (s₁.shared self other) = s.shared self other :=
      hreaches.others
    obtain ⟨k', s', hrun, hstop, hbefore, hafter⟩ := ih hreaches.sound hreaches.reading (by omega)
      fun other hlt hle => by
        have hne : which ≠ other := by omega
        obtain ⟨ho, hi⟩ := hok other hlt (by omega)
        have hidle' : (s₁.shared self other).bus.consumer = .idle := by
          rw [hsame other hne]
          exact hi
        exact ⟨by rw [hsame other hne]; exact ho, hidle'⟩
    refine ⟨k + k', s', ?_, hstop, fun other hlt => ?_, fun other hlt hle => ?_⟩
    · rw [List.replicate_add]
      exact (Runs.run_append hreaches.run).trans hrun
    · rw [hbefore other (by omega), hsame other (by omega)]
    · by_cases hne : which = other
      · subst hne
        rw [Drained, hbefore which (Nat.lt_succ_self _), hend]
        exact hdelivered
      · rw [← hsame other hne]
        exact hafter other hlt (by omega)

/-- A call of `consume_messages` that nothing interrupts. -/
theorem Sound.consumeMessages (hfit : Fit self file) (h : Sound self file s)
    (hnone : s.reading = none) (hturn : Turn self s)
    (hok : ∀ which < self.numRegions.toNat, (s.shared self which).bus.Ok self.regionEnd) :
    ∃ k s', WholeBus.run self (List.replicate k .consume) s = some s' ∧ s'.reading = none ∧
      ∀ which < self.numRegions.toNat, Drained (s.shared self which) (s'.shared self which) := by
  have hidle : ∀ which < self.numRegions.toNat, (s.parties which).consumer = .idle := by
    intro which hwhich
    by_contra hne
    cases hnone.symm.trans (hturn which hwhich hne)
  have henter : s.step self .consume = some { s with reading := some 0 } := by
    simp only [WholeBus.step, WholeBus.consume, hnone]
  obtain ⟨k, s₁, hrun, hreading, -, hdrained⟩ := (h.step hfit henter).readRegions hfit
    self.numRegions.toNat rfl (Nat.zero_add _) fun other hlt _ => ⟨hok other hlt, hidle other hlt⟩
  have hleave : s₁.step self .consume = some { s₁ with reading := none } := by
    simp only [WholeBus.step, WholeBus.consume, hreading, if_neg (Nat.lt_irrefl _)]
  refine ⟨1 + k + 1, { s₁ with reading := none }, ?_, rfl, fun which hwhich =>
    hdrained which hwhich (Nat.zero_le _)⟩
  rw [List.replicate_add, List.replicate_add]
  exact (Runs.run_append ((Runs.run_append (Runs.run_cons_eq_some.mpr ⟨_, henter, rfl⟩)).trans
    hrun)).trans (Runs.run_cons_eq_some.mpr ⟨_, hleave, rfl⟩)

end WholeBus

/-! ## Every bus that has been created -/

section Created

variable {codec : InfoCodec} {epoch : ClockEpoch} {backing : Backing}
  {numRegions regionSize : UInt32} {lockState : LockKind} {self : Handle} {file : File}
  (h : mpscBus codec epoch backing numRegions regionSize lockState = .ok (self, file))
  (hsize : regionSize.toNat ≤ 0xe0000000) {ops : List WholeBus.Op}
  (hfresh : Runs.Along (WholeBus.step self) (WholeBus.Op.Fresh self) ops (.start file))
  {s : WholeBus} (hrun : WholeBus.run self ops (.start file) = some s)
include h hsize hfresh hrun

/-- The run of one region, and what it leaves there. -/
theorem mpscBus_region {which : Nat} (hwhich : which < self.numRegions.toNat) :
    ∃ accesses, accesses = WholeBus.accesses self which ops (.start file) ∧
      Shared.run self.regionEnd accesses .init = some (s.shared self which) ∧
      Runs.Along (Shared.step self.regionEnd) (Access.Fresh self.regionEnd) accesses .init := by
  have hfit := mpscBus_fit h hsize
  have hstart := WholeBus.start_sound h
  have hshared := WholeBus.start_shared h hwhich
  refine ⟨_, rfl, ?_, ?_⟩
  · rw [← hshared]
    exact hstart.run_region hfit hrun hwhich
  · rw [← hshared]
    exact hstart.accesses_fresh hfit hrun hfresh hwhich

theorem mpscBus_ok {which : Nat} (hwhich : which < self.numRegions.toNat) :
    (s.shared self which).Ok self.regionEnd := by
  have hfit := mpscBus_fit h hsize
  obtain ⟨accesses, -, hregion, hfresh⟩ := mpscBus_region h hsize hfresh hrun hwhich
  exact (Shared.init_ok (mpscBus_created h).regionEnd_spec.2.2.1).run hfit.aligned hfit.room hfresh
    hregion

/-- All regions of a bus are queues at once. Their slots share no byte of the file; what has been
passed on of a region are its first messages, as their producers wrote them; and an uninterrupted
call of `consume_messages` passes on what is due in every region. -/
theorem whole_bus_delivers :
    s.Apart self ∧
    (∀ which < self.numRegions.toNat,
      Fifo.Steps Shared.init.queue (s.shared self which).queue ∧
      (s.shared self which).queue.Ordered ∧
      ∀ i m o value, (s.shared self which).bus.messages[i]? = some m →
        WholeBus.lastWrite which i o ops = some value → m.bytes o = value) ∧
    (s.reading = none → ∃ k s', WholeBus.run self (List.replicate k .consume) s = some s' ∧
      s'.reading = none ∧ ∀ which < self.numRegions.toNat,
        WholeBus.Drained (s.shared self which) (s'.shared self which)) := by
  have hfit := mpscBus_fit h hsize
  have hsound := (WholeBus.start_sound h).run hfit hrun
  have hpos := (mpscBus_created h).regionEnd_spec.2.2.1
  refine ⟨hsound.apart hfit fun which hwhich =>
    (mpscBus_ok h hsize hfresh hrun hwhich).apart hfit.aligned, fun which hwhich => ?_,
    fun hnone => ?_⟩
  · obtain ⟨accesses, rfl, hregion, hregionFresh⟩ := mpscBus_region h hsize hfresh hrun hwhich
    have hinit := Shared.init_ok hpos
    refine ⟨hinit.run_refines hfit.aligned hfit.room hregionFresh hregion,
      (mpscBus_ok h hsize hfresh hrun hwhich).bus.ordered, fun i m o value hm hlast => ?_⟩
    rw [← WholeBus.lastWrite_region hrun hregion] at hlast
    exact Bus.run_lastWrite
      (hinit.run_ops hfit.aligned hfit.room hregionFresh hregion) hm hlast
  · have hturn : WholeBus.Turn self (.start file) := fun _ _ hne => absurd rfl hne
    exact hsound.consumeMessages hfit hnone (hturn.run hrun) fun which hwhich =>
      (mpscBus_ok h hsize hfresh hrun hwhich).bus

end Created

/-- Accesses that are fresh in a region are fresh in the bus. -/
theorem WholeBus.Sound.lift_fresh {self : Handle} {file : File} {s : WholeBus}
    (hfit : WholeBus.Fit self file) (h : WholeBus.Sound self file s) {which : Nat}
    (hwhich : which < self.numRegions.toNat) {accesses : List Access}
    (hfresh : Runs.Along (Shared.step self.regionEnd) (Access.Fresh self.regionEnd) accesses
      (s.shared self which)) :
    Runs.Along (WholeBus.step self) (WholeBus.Op.Fresh self) (accesses.map (.access which)) s := by
  induction accesses generalizing s with
  | nil => trivial
  | cons access accesses ih =>
    refine ⟨hfresh.1, fun s' hs' => ih (h.step hfit hs') ?_⟩
    simp only [WholeBus.step] at hs'
    split at hs'
    case isFalse => cases hs'
    case isTrue =>
      obtain ⟨t, ht, rfl⟩ := Option.map_eq_some_iff.mp hs'
      rw [WholeBus.shared_put (by have := hfit.room; omega)
        ((h.confined which hwhich).step hfit.aligned hfit.room ht)]
      exact hfresh.2 t ht

theorem sampleAccesses_fresh {self : Handle} {file : File}
    (h : mpscBus plainInfo sampleEpoch newFile 2 4096 .exclusive = .ok (self, file))
    (hnum : self.numRegions.toNat = 2) (hend : self.regionEnd = 4032) :
    Runs.Along (WholeBus.step self) (WholeBus.Op.Fresh self) (sampleAccesses.map (.access 1))
      (.start file) := by
  have hwhich : 1 < self.numRegions.toNat := by omega
  refine (WholeBus.start_sound h).lift_fresh (mpscBus_fit h (by decide)) hwhich ?_
  rw [WholeBus.start_shared h hwhich, hend]
  decide

/-- What the sample leaves in its region. -/
theorem sampleAccesses_region {t : Shared} (ht : Shared.run 4032 sampleAccesses .init = some t) :
    t.bus.delivered = [] ∧ (due t.bus.messages).map Message.content = [[7, 8]] ∧
      t.bus.pending.map Message.stage = [.committed] := by
  have hseen : (Shared.run 4032 sampleAccesses .init).map (fun t =>
      (t.bus.delivered, (due t.bus.messages).map Message.content,
        t.bus.pending.map Message.stage)) = some ([], [[7, 8]], [.committed]) := by decide
  rw [ht, Option.map_some, Option.some.injEq, Prod.mk.injEq, Prod.mk.injEq] at hseen
  exact hseen

theorem whole_bus_delivers_sample : ∃ self file s,
    mpscBus plainInfo sampleEpoch newFile 2 4096 .exclusive = .ok (self, file) ∧
    WholeBus.run self (sampleAccesses.map (.access 1)) (.start file) = some s ∧
    ∃ k s', WholeBus.run self (List.replicate k .consume) s = some s' ∧
      (s'.shared self 1).bus.delivered = [[7, 8]] := by
  obtain ⟨self, file, s, t, h, hnum, hend, hrun, ht, hshared, hnone⟩ := sampleAccesses_run
  refine ⟨self, file, s, h, hrun, ?_⟩
  obtain ⟨-, -, hconsume⟩ :=
    whole_bus_delivers h (by decide) (sampleAccesses_fresh h hnum hend) hrun
  obtain ⟨k, s', hrun', -, hdrained⟩ := hconsume hnone
  obtain ⟨hnothing, hdue, -⟩ := sampleAccesses_region ht
  have hregion := hdrained 1 (by omega)
  rw [WholeBus.Drained, hshared, hnothing, List.length_nil, List.drop_zero, hdue] at hregion
  exact ⟨k, s', hrun', hregion⟩

end Deeplog.Mpsc

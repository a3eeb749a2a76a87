import Deeplog.Mpsc.WholeBus

/-!
# Regions do not disturb each other

In a run of the whole bus each region goes through its own accesses from a new region on, and the
span counters go through the calls of `create_span_context`. The head area is not touched, so that
the file can be recovered at any moment.
-/

namespace Deeplog.Mpsc

/-! ## A new file -/

theorem regionImage_getD {size x : Nat} (hle : regionCtrlOverhead ≤ size)
    (ha : size % pageSize = 0) (hx : x < size) :
    (regionImage size).getD x 0 = if x < regionCtrlOverhead then 0 else 0xfe := by
  have hlen := regionImage_length hle ha
  rw [List.getD_eq_getElem _ _ (by rw [hlen]; exact hx)]
  unfold regionImage
  by_cases hctrl : x < regionCtrlOverhead
  · rw [List.getElem_append_left (by rw [List.length_replicate]; exact hctrl),
      List.getElem_replicate, if_pos hctrl]
  · rw [List.getElem_append_right (by rw [List.length_replicate]; omega),
      List.getElem_replicate, if_neg hctrl]

/-- Every region is initialised, and stays so while the next ones are. -/
theorem initializeRegions_byte {size numRegions which x : Nat} (hle : regionCtrlOverhead ≤ size)
    (ha : size % pageSize = 0) (hwhich : which < numRegions) (hx : x < size) (file : File) :
    (initializeRegions size numRegions file).byte (headAreaSize + which * size + x) =
      (regionImage size).getD x 0 := by
  have hlen := regionImage_length hle ha
  induction numRegions with
  | zero => omega
  | succ n ih =>
    rw [initializeRegions, List.range_succ, List.foldl_append, List.foldl_cons, List.foldl_nil]
    by_cases hlast : which = n
    · subst hlast
      have hin : headAreaSize + which * size ≤ headAreaSize + which * size + x ∧
          headAreaSize + which * size + x <
            headAreaSize + which * size + (regionImage size).length := by omega
      simp only [File.write, if_pos hin, Nat.add_sub_cancel_left]
    · have hmul : (which + 1) * size ≤ n * size := Nat.mul_le_mul_right _ (by omega)
      rw [Nat.succ_mul] at hmul
      exact (File.byte_write_of_not_mem (by omega)).trans (ih (by omega))

section Created

variable {codec : InfoCodec} {epoch : ClockEpoch} {backing : Backing}
  {numRegions regionSize : UInt32} {lockState : LockKind} {self : Handle} {file : File}

theorem mpscBus_regions
    (h : mpscBus codec epoch backing numRegions regionSize lockState = .ok (self, file)) :
    ∃ file₀, file = initializeRegions (realRegionSize regionSize) numRegions.toNat file₀ := by
  unfold mpscBus at h
  split at h
  · cases h
  · split at h
    · cases h
    · split at h
      · cases h
      · split at h
        · cases h
        · simp only [Except.ok.injEq, Prod.mk.injEq] at h
          exact ⟨_, h.2.symm⟩

theorem Created.numRegions_eq (h : Created codec epoch numRegions regionSize self file) :
    self.numRegions = numRegions := by rw [h.bus_eq]

theorem Created.regionSize_eq (h : Created codec epoch numRegions regionSize self file) :
    self.regionSize.toNat = realRegionSize regionSize := by
  rw [h.bus_eq, Handle.regionSize_toNat h.accepted]

theorem Created.roomy (h : Created codec epoch numRegions regionSize self file) : self.Roomy := by
  have hle := h.accepted.realRegionSize_spec.1
  have hmin := h.accepted.min_le
  unfold minRegionSize at hmin
  rw [Handle.Roomy, h.regionSize_eq, regionCtrlOverhead]
  omega

/-- The bytes of a region that has just been created. -/
theorem mpscBus_byte
    (h : mpscBus codec epoch backing numRegions regionSize lockState = .ok (self, file))
    {which x : Nat} (hwhich : which < self.numRegions.toNat) (hx : x < self.regionSize.toNat) :
    file.byte (self.regionAddress which + x) = if x < regionCtrlOverhead then 0 else 0xfe := by
  have hcreated := mpscBus_created h
  have hroomy := hcreated.roomy
  obtain ⟨-, -, ha, -⟩ := hcreated.accepted.realRegionSize_spec
  obtain ⟨file₀, rfl⟩ := mpscBus_regions h
  rw [Handle.Roomy, hcreated.regionSize_eq] at hroomy
  rw [hcreated.regionSize_eq] at hx
  rw [hcreated.numRegions_eq] at hwhich
  rw [Handle.regionAddress, hcreated.regionSize_eq,
    initializeRegions_byte hroomy ha hwhich hx, regionImage_getD hroomy ha hx]

theorem mpscBus_word
    (h : mpscBus codec epoch backing numRegions regionSize lockState = .ok (self, file))
    {which p : Nat} (hwhich : which < self.numRegions.toNat) (hp : p + 4 ≤ regionCtrlOverhead) :
    loadWord file.byte (self.regionAddress which + p) = 0 := by
  have hroomy := (mpscBus_created h).roomy
  unfold Handle.Roomy at hroomy
  have hzero : ∀ o < 4, file.byte (self.regionAddress which + p + o) = 0 := fun o ho => by
    rw [Nat.add_assoc, mpscBus_byte h hwhich (by omega), if_pos (by omega)]
  change _ = loadWord (fun _ => 0) (self.regionAddress which + p)
  exact loadWord_congr hzero

/-- A new region has nothing in it. -/
theorem mpscBus_window
    (h : mpscBus codec epoch backing numRegions regionSize lockState = .ok (self, file))
    {which : Nat} (hwhich : which < self.numRegions.toNat) :
    self.window file which = .init := by
  have hsize := (mpscBus_created h).roomy.regionSize_eq
  have hread := mpscBus_word h hwhich (show 0 + 4 ≤ regionCtrlOverhead by decide)
  have halloc := mpscBus_word h hwhich (show 4 + 4 ≤ regionCtrlOverhead by decide)
  have hdata : (self.window file which).data = fun _ => 0xfe := by
    funext x
    simp only [Handle.window, Handle.region]
    split_ifs with hx
    · rw [Nat.add_assoc, mpscBus_byte h hwhich (by omega), if_neg (by omega)]
    · rfl
  simp only [Handle.window, Handle.region, Nat.add_zero, Region.init] at hread halloc hdata ⊢
  rw [hread, halloc, hdata]

theorem mpscBus_spanPrngCtr
    (h : mpscBus codec epoch backing numRegions regionSize lockState = .ok (self, file)) :
    self.spanPrngCtrs file = fun _ => 0 := by
  funext which
  unfold Handle.spanPrngCtrs
  split_ifs with hwhich
  · rw [Handle.spanPrngCtr, mpscBus_word h hwhich (by decide),
      mpscBus_word h hwhich (by decide)]
    rfl
  · rfl

end Created

/-! ## One step -/

theorem Source.regionOf_lt {numRegions : Nat} (hpos : 0 < numRegions)
    (trace : Source.TraceId) : Source.MpscBus.regionOf numRegions trace < numRegions := by
  simp only [Source.MpscBus.regionOf, Source.hashToIndex]
  generalize hw : BitVec.toNat _ = w
  have hword : w < 2 ^ 32 := by rw [← hw]; exact BitVec.isLt _
  rw [Nat.div_lt_iff_lt_mul (by decide)]
  calc w * numRegions % 2 ^ 64 ≤ w * numRegions := Nat.mod_le _ _
    _ < 2 ^ 32 * numRegions := Nat.mul_lt_mul_of_pos_right hword hpos
    _ = numRegions * 2 ^ 32 := Nat.mul_comm _ _

namespace WholeBus

variable {self : Handle} {file : File} {s s' : WholeBus} {which other : Nat} {t : Shared}

theorem shared_put (hlt : self.regionEnd < 2 ^ 32) (h : t.Confined self.regionEnd) :
    (s.put self which t).shared self which = t := by
  have hread := h.bus.hands.read.1
  have halloc := h.bus.hands.alloc.1
  have hwindow : self.window (self.storeWindow which t.bus.region s.file) which = t.bus.region :=
    Handle.window_storeWindow (hread.trans hlt) (halloc.trans hlt) h.bus.outside
  simp only [shared, put, Function.update_self, hwindow]

theorem shared_put_of_ne (hself : self.Roomy) (hne : which ≠ other) :
    (s.put self which t).shared self other = s.shared self other := by
  simp only [shared, put, Function.update_of_ne (Ne.symm hne),
    Handle.window_storeWindow_of_ne hself hne]

theorem shared_createSpan (hself : self.Roomy) (request : Source.SpanRequest) :
    (s.createSpan self request).shared self which = s.shared self which := by
  simp only [shared, createSpan, Handle.window_storeSpanPrngCtr hself]

/-- What a step can do. -/
theorem step_cases {op : Op} (h : s.step self op = some s') :
    (∃ request, op = .createSpan request ∧ s' = s.createSpan self request) ∨
    (∃ reading, op = .consume ∧
      (∀ which, s.reading = some which → ¬which < self.numRegions.toNat) ∧
      s' = { s with reading }) ∨
    ∃ which access t reading, which < self.numRegions.toNat ∧
      (∀ other, s.seen self other op = if which = other then some access else none) ∧
      (s.shared self which).step self.regionEnd access = some t ∧
      s' = { s.put self which t with reading } := by
  cases op with
  | createSpan request => exact .inl ⟨request, rfl, (Option.some.inj h).symm⟩
  | access which access =>
    simp only [step] at h
    split at h
    case isFalse => cases h
    case isTrue hin =>
      obtain ⟨t, ht, rfl⟩ := Option.map_eq_some_iff.mp h
      refine .inr (.inr ⟨which, access, t, s.reading, hin.1, fun other => ?_, ht, rfl⟩)
      simp [seen, hin.2]
  | consume =>
    simp only [step, consume] at h
    split at h
    case h_1 hnone =>
      cases h
      exact .inr (.inl ⟨some 0, rfl, fun which hw => by simp [hnone] at hw, rfl⟩)
    case h_2 which hsome =>
      split at h
      case isFalse hout =>
        cases h
        refine .inr (.inl ⟨none, rfl, fun w hw => ?_, rfl⟩)
        cases hsome.symm.trans hw
        exact hout
      case isTrue hin =>
        obtain ⟨t, ht, rfl⟩ := Option.map_eq_some_iff.mp h
        refine .inr (.inr ⟨which, .consume, t, _, hin, fun other => ?_, ht, rfl⟩)
        simp only [seen, hsome, Option.some.injEq]
        by_cases hw : which = other
        · subst hw
          simp [hin]
        · simp [hw]

/-- The file of a bus at work. -/
structure Sound (bus : Handle) (file : File) (s : WholeBus) : Prop where
  size : s.file.size = file.size
  head : ∀ i < headAreaSize, s.file.byte i = file.byte i
  confined : ∀ which < bus.numRegions.toNat, (s.shared bus which).Confined bus.regionEnd

/-- What the handle and its file promise each other. -/
structure Fit (bus : Handle) (file : File) : Prop where
  roomy : bus.Roomy
  pos : 0 < bus.numRegions.toNat
  size : file.size = headAreaSize + bus.numRegions.toNat * bus.regionSize.toNat
  aligned : bus.regionEnd % 4 = 0
  room : bus.regionEnd + 2 ^ 29 < 2 ^ 32

section Step

variable (hfit : Fit self file)
include hfit

theorem Fit.put_file (hsize : s.file.size = file.size) (hwhich : which < self.numRegions.toNat) :
    (s.put self which t).file.size = file.size ∧
      ∀ i < headAreaSize, (s.put self which t).file.byte i = s.file.byte i := by
  have hle := self.regionAddress_le hwhich
  constructor
  · exact (Handle.storeWindow_size hfit.roomy (by rw [hsize, hfit.size]; exact hle)).trans hsize
  · intro i hi
    have haddr : headAreaSize ≤ self.regionAddress which := Nat.le_add_right _ _
    exact Handle.storeWindow_byte (by omega) (by unfold regionCtrlOverhead; omega)

theorem Fit.createSpan_file (hsize : s.file.size = file.size) (request : Source.SpanRequest) :
    (s.createSpan self request).file.size = file.size ∧
      ∀ i < headAreaSize, (s.createSpan self request).file.byte i = s.file.byte i := by
  have hwhich := Source.regionOf_lt hfit.pos request.effective
  have hle := self.regionAddress_le hwhich
  constructor
  · exact (Handle.storeSpanPrngCtr_size hfit.roomy
      (by rw [hsize, hfit.size]; exact hle)).trans hsize
  · intro i hi
    have haddr : headAreaSize ≤ self.regionAddress
      (Source.MpscBus.regionOf self.numRegions.toNat request.effective) := Nat.le_add_right _ _
    exact Handle.storeSpanPrngCtr_byte (by omega)

theorem Sound.step {op : Op} (h : Sound self file s) (hs : s.step self op = some s') :
    Sound self file s' := by
  rcases step_cases hs with ⟨request, -, rfl⟩ | ⟨reading, -, -, rfl⟩ |
    ⟨which, access, t, reading, hwhich, -, ht, rfl⟩
  · obtain ⟨hsize, hhead⟩ := hfit.createSpan_file h.size request
    refine ⟨hsize, fun i hi => (hhead i hi).trans (h.head i hi), fun which hwhich => ?_⟩
    rw [shared_createSpan hfit.roomy]
    exact h.confined which hwhich
  · exact ⟨h.size, h.head, h.confined⟩
  · obtain ⟨hsize, hhead⟩ := hfit.put_file (t := t) h.size hwhich
    have hconfined := (h.confined which hwhich).step hfit.aligned hfit.room ht
    refine ⟨hsize, fun i hi => (hhead i hi).trans (h.head i hi), fun other hother => ?_⟩
    change ((s.put self which t).shared self other).Confined self.regionEnd
    by_cases hne : which = other
    · subst hne
      rw [shared_put (by have := hfit.room; omega) hconfined]
      exact hconfined
    · rw [shared_put_of_ne hfit.roomy hne]
      exact h.confined other hother

/-- Seen from a region, a step is an access to it or nothing. -/
theorem Sound.step_region {op : Op} (h : Sound self file s) (hs : s.step self op = some s')
    {which : Nat} (hwhich : which < self.numRegions.toNat) :
    Shared.run self.regionEnd (s.seen self which op).toList (s.shared self which) =
      some (s'.shared self which) := by
  rcases step_cases hs with ⟨request, rfl, rfl⟩ | ⟨reading, rfl, hreading, rfl⟩ |
    ⟨other, access, t, reading, hother, hseen, ht, rfl⟩
  · rw [shared_createSpan hfit.roomy]
    rfl
  · have hnone : s.seen self which .consume = none := by
      simp only [seen]
      exact if_neg fun hc => hreading which hc.1 hc.2
    rw [hnone]
    rfl
  · have hconfined := (h.confined other hother).step hfit.aligned hfit.room ht
    change _ = some ((s.put self other t).shared self which)
    rw [hseen]
    by_cases hne : other = which
    · subst hne
      rw [if_pos rfl, shared_put (by have := hfit.room; omega) hconfined]
      exact Runs.run_cons_eq_some.mpr ⟨t, ht, rfl⟩
    · rw [if_neg hne, shared_put_of_ne hfit.roomy hne]
      rfl

end Step

/-! ## Span counters -/

/-- A call of `create_span_context`, for counters and results alone. -/
def spanStep (numRegions : Nat) (request : Source.SpanRequest)
    (state : (Nat → Source.U64) × List Source.SpanContext) :
    Option ((Nat → Source.U64) × List Source.SpanContext) :=
  let (context, ctrs) := Source.MpscBus.createSpanContext numRegions state.1 request
  some (ctrs, state.2 ++ [context])

theorem spanStep_run {numRegions : Nat} {requests : List Source.SpanRequest}
    {state state' : (Nat → Source.U64) × List Source.SpanContext}
    (h : Runs.run (spanStep numRegions) requests state = some state') :
    state'.2 = state.2 ++
      Source.spanRun (Source.MpscBus.createSpanContext numRegions) state.1 requests := by
  induction requests generalizing state with
  | nil => cases h; exact (List.append_nil _).symm
  | cons request requests ih =>
    obtain ⟨t, ht, hrest⟩ := Runs.run_cons_eq_some.mp h
    cases ht
    rw [ih hrest, List.append_assoc]
    rfl

/-- The counters and the results so far. -/
def spanState (self : Handle) (s : WholeBus) : (Nat → Source.U64) × List Source.SpanContext :=
  (self.spanPrngCtrs s.file, s.spans)

theorem Fit.step_spans (hfit : Fit self file) {op : Op} (hs : s.step self op = some s') :
    Runs.run (spanStep self.numRegions.toNat) op.request.toList (spanState self s) =
      some (spanState self s') := by
  rcases step_cases hs with ⟨request, rfl, rfl⟩ | ⟨reading, rfl, -, rfl⟩ |
    ⟨which, access, t, reading, -, hseen, -, rfl⟩
  · refine Runs.run_cons_eq_some.mpr ⟨_, rfl, ?_⟩
    have hin := Source.regionOf_lt hfit.pos request.effective
    simp only [Runs.run, spanState, createSpan, Source.MpscBus.createSpanContext,
      Source.createSpanContext, Function.update_self, Option.some.injEq, Prod.mk.injEq, and_true]
    funext which
    by_cases hne : Source.MpscBus.regionOf self.numRegions.toNat request.effective = which
    · subst hne
      simp only [Function.update_self, Handle.spanPrngCtrs, if_pos hin, Handle.spanPrngCtr_store]
    · rw [Function.update_of_ne (Ne.symm hne)]
      simp only [Handle.spanPrngCtrs, Handle.spanPrngCtr_store_of_ne hfit.roomy hne]
  · rfl
  · have hnone : op.request = none := by
      cases op with
      | createSpan request => simpa [seen] using hseen which
      | access regionId access => rfl
      | consume => rfl
    rw [hnone]
    simp only [Option.toList_none, Runs.run, spanState, put, Option.some.injEq, Prod.mk.injEq,
      and_true]
    funext other
    simp only [Handle.spanPrngCtrs, Handle.spanPrngCtr_storeWindow hfit.roomy]

theorem trace_request {ops : List Op} (hrun : run self ops s = some s') :
    Runs.trace (step self) (fun op _ => op.request) ops s = ops.filterMap Op.request := by
  induction ops generalizing s with
  | nil => rfl
  | cons op ops ih =>
    obtain ⟨t, ht, hrest⟩ := Runs.run_cons_eq_some.mp hrun
    rw [Runs.trace_cons ht, ih hrest, List.filterMap_cons]
    cases op.request <;> rfl

/-! ## Runs -/

section Run

variable (hfit : Fit self file) {ops : List Op}
include hfit

theorem Sound.run (h : Sound self file s) (hrun : run self ops s = some s') :
    Sound self file s' :=
  Runs.invariant (fun _ _ _ _ h hs => h.step hfit hs) (.of_forall fun _ _ _ => trivial) h hrun

/-- A region goes through its own accesses. -/
theorem Sound.run_region (h : Sound self file s) (hrun : WholeBus.run self ops s = some s')
    (hwhich : which < self.numRegions.toNat) :
    Shared.run self.regionEnd (accesses self which ops s) (s.shared self which) =
      some (s'.shared self which) :=
  Runs.project (fun _ _ _ _ h hs => h.step hfit hs)
    (fun _ _ _ _ h hs => h.step_region hfit hs hwhich) (.of_forall fun _ _ _ => trivial) h hrun

theorem Fit.run_spans (hrun : run self ops s = some s') :
    Runs.run (spanStep self.numRegions.toNat) (ops.filterMap Op.request) (spanState self s) =
      some (spanState self s') := by
  rw [← trace_request hrun]
  exact Runs.project (fun _ _ _ _ _ _ => trivial) (fun _ _ _ _ _ hs => hfit.step_spans hs)
    (.of_forall fun _ _ _ => trivial) trivial hrun

/-- Producers alone in a region can do what they can do in a region alone. -/
theorem Sound.lift (h : Sound self file s) (hwhich : which < self.numRegions.toNat)
    {accesses : List Access} (hproducer : ∀ access ∈ accesses, access.OfProducer)
    (hrun : Shared.run self.regionEnd accesses (s.shared self which) = some t) :
    ∃ s', WholeBus.run self (accesses.map (.access which)) s = some s' ∧ Sound self file s' ∧
      s'.shared self which = t ∧ s'.reading = s.reading := by
  induction accesses generalizing s with
  | nil => cases hrun; exact ⟨s, rfl, h, rfl, rfl⟩
  | cons access accesses ih =>
    obtain ⟨u, hu, hrest⟩ := Runs.run_cons_eq_some.mp hrun
    have hstep : s.step self (.access which access) = some (s.put self which u) := by
      have hgo := And.intro hwhich (hproducer access List.mem_cons_self)
      simp only [WholeBus.step, if_pos hgo, hu, Option.map_some]
    have hshared : (s.put self which u).shared self which = u :=
      shared_put (by have := hfit.room; omega)
        ((h.confined which hwhich).step hfit.aligned hfit.room hu)
    obtain ⟨s', hs', hsound, hend, hreading⟩ := ih (h.step hfit hstep)
      (fun a ha => hproducer a (List.mem_cons_of_mem _ ha)) (by rw [hshared]; exact hrest)
    exact ⟨s', Runs.run_cons_eq_some.mpr ⟨_, hstep, hs'⟩, hsound, hend, hreading⟩

end Run

end WholeBus

/-! ## Every bus that has been created -/

section Created

variable {codec : InfoCodec} {epoch : ClockEpoch} {backing : Backing}
  {numRegions regionSize : UInt32} {lockState : LockKind} {self : Handle} {file : File}
  (h : mpscBus codec epoch backing numRegions regionSize lockState = .ok (self, file))
include h

theorem WholeBus.start_shared {which : Nat} (hwhich : which < self.numRegions.toNat) :
    (WholeBus.start file).shared self which = .init := by
  simp only [shared, start, mpscBus_window h hwhich]
  rfl

theorem mpscBus_fit (hsize : regionSize.toNat ≤ 0xe0000000) : WholeBus.Fit self file := by
  have hcreated := mpscBus_created h
  obtain ⟨hend, haligned, -, -⟩ := hcreated.regionEnd_spec
  obtain ⟨-, hround, ha, -⟩ := hcreated.accepted.realRegionSize_spec
  have hpos := hcreated.accepted.pos
  unfold pageSize at hround ha
  refine ⟨hcreated.roomy, ?_, ?_, haligned, by omega⟩
  · rw [hcreated.numRegions_eq]
    omega
  · rw [hcreated.size, hcreated.numRegions_eq, hcreated.regionSize_eq]

theorem WholeBus.start_sound : WholeBus.Sound self file (.start file) := by
  refine ⟨rfl, fun _ _ => rfl, fun which hwhich => ?_⟩
  rw [start_shared h hwhich]
  exact Shared.init_confined (mpscBus_created h).regionEnd_spec.2.2.1

/-- Whatever producers, the consumer and `create_span_context` do on a bus whose regions leave room
for the largest message, and however old the hands are that they hold: the head area is unchanged,
so that the file can be recovered, every region has gone through its own accesses alone, and the
span contexts are those of counters alone. -/
theorem regions_isolated (hsize : regionSize.toNat ≤ 0xe0000000) {ops : List WholeBus.Op}
    {s : WholeBus} (hrun : WholeBus.run self ops (.start file) = some s) :
    (∀ i < headAreaSize, s.file.byte i = file.byte i) ∧
    readHead codec s.file = .ok self ∧
    (∀ which < self.numRegions.toNat,
      Shared.run self.regionEnd (WholeBus.accesses self which ops (.start file)) .init =
        some (s.shared self which)) ∧
    s.spans = Source.spanRun (Source.MpscBus.createSpanContext self.numRegions.toNat) (fun _ => 0)
      (ops.filterMap WholeBus.Op.request) := by
  have hfit := mpscBus_fit h hsize
  have hstart := WholeBus.start_sound h
  have hend := hstart.run hfit hrun
  refine ⟨hend.head, ?_, fun which hwhich => ?_, ?_⟩
  · have hround := (mpscBus_created h).accepted.realRegionSize_spec.2.1
    rw [(mpscBus_created h).readHead_eq hend.size hend.head]
    unfold pageSize at *
    exact if_neg (by omega)
  · rw [← WholeBus.start_shared h hwhich]
    exact hstart.run_region hfit hrun hwhich
  · have hspans := WholeBus.spanStep_run (hfit.run_spans hrun)
    simpa only [WholeBus.spanState, mpscBus_spanPrngCtr h, WholeBus.start, List.nil_append]
      using hspans

end Created

/-- A producer allocates two bytes, writes and commits them. -/
def sampleAccesses : List Access :=
  allocateAlone 0 2 ++ [.write 0 0 7, .write 0 1 8, .commit 0]

/-- It does so in the second of two regions. -/
theorem sampleAccesses_run : ∃ self file s t,
    mpscBus plainInfo sampleEpoch newFile 2 4096 .exclusive = .ok (self, file) ∧
    self.numRegions.toNat = 2 ∧ self.regionEnd = 4032 ∧
    WholeBus.run self (sampleAccesses.map (.access 1)) (.start file) = some s ∧
    Shared.run 4032 sampleAccesses .init = some t ∧ s.shared self 1 = t ∧ s.reading = none := by
  have haccepted : Accepted 2 4096 := by decide
  obtain ⟨self, file, h⟩ := mpscBus_newFile haccepted
  have hnum : self.numRegions.toNat = 2 := by rw [(mpscBus_created h).numRegions_eq]; rfl
  have hend : self.regionEnd = 4032 := (mpscBus_created h).regionEnd_spec.1.trans (by decide)
  obtain ⟨t, ht⟩ := Option.isSome_iff_exists.mp
    (show (Shared.run 4032 sampleAccesses .init).isSome by decide)
  have hwhich : 1 < self.numRegions.toNat := by omega
  obtain ⟨s, hrun, -, hshared, hreading⟩ := (WholeBus.start_sound h).lift
    (mpscBus_fit h (by decide)) hwhich (show ∀ access ∈ sampleAccesses, access.OfProducer by decide)
    (by rw [WholeBus.start_shared h hwhich, hend]; exact ht)
  exact ⟨self, file, s, t, h, hnum, hend, hrun, ht, hshared, hreading⟩

theorem regions_isolated_sample : ∃ self file s,
    mpscBus plainInfo sampleEpoch newFile 2 4096 .exclusive = .ok (self, file) ∧
    WholeBus.run self (sampleAccesses.map (.access 1)) (.start file) = some s ∧
    readHead plainInfo s.file = .ok self := by
  obtain ⟨self, file, s, -, h, -, -, hrun, -⟩ := sampleAccesses_run
  exact ⟨self, file, s, h, hrun, (regions_isolated h (by decide) hrun).2.1⟩

end Deeplog.Mpsc

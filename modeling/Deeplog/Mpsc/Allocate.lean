import Deeplog.Mpsc.Range

/-!
# Allocation over all regions

`allocate_record_buffer_inplace` starts at the region that the span id, or the thread, is spread
to and asks one region after the other, around all of them. A region that refuses is left as it
is. The hands of a region may have stopped anywhere; when they meet, all of it is free but none of
it has moved, so that a message has to fit in front of the hands or behind them.
-/

namespace Deeplog.Mpsc

/-- `detail::hash_to_index` -/
def hashToIndex (h buckets : UInt32) : UInt32 := ((h.toUInt64 * buckets.toUInt64) >>> 32).toUInt32

/-- What a `record_output_buffer` spans: the payload, and the header through which it commits. -/
structure OutputBuffer where
  msgCtrl : Nat
  data : Nat
  size : Nat
  deriving DecidableEq

/-- `mpsc_bus_handle::allocate` on one region while no one else is at work there; `none` stands
for `not_enough_space`. -/
def Region.allocate (regionEnd payloadSize : Nat) (region : Region) :
    Option OutputBuffer × Region :=
  let allocSize := allocSizeOf payloadSize
  match place regionEnd region.readPtr region.allocPtr allocSize with
  | none => (none, region)
  | some (payloadPosition, payloadEnd) =>
    let data := storeWord region.data region.allocPtr (lockedHead payloadSize)
    (some ⟨region.allocPtr, payloadPosition, allocSize⟩,
      { region with allocPtr := payloadEnd, data })

/-- What has become of a call of `allocate_record_buffer_inplace`: the regions that `allocate` has
been called for, the buffer with its region unless there was not enough space, and the regions. -/
structure Allocation where
  calls : List Nat
  result : Option (Nat × OutputBuffer)
  regions : Nat → Region

namespace Handle

/-- The loop of `allocate_record_buffer_inplace`, for at most `fuel` calls of `allocate`. -/
def allocateLoop (self : Handle) (payloadSize firstRegionId : Nat) :
    (fuel regionId : Nat) → (Nat → Region) → Option Allocation
  | 0, _, _ => none
  | fuel + 1, regionId, regions =>
    match (regions regionId).allocate self.regionEnd payloadSize with
    | (some out, region) =>
      some ⟨[regionId], some (regionId, out), Function.update regions regionId region⟩
    | (none, region) =>
      let regions := Function.update regions regionId region
      let incremented := u32 (regionId + 1)
      let next := if incremented = self.numRegions.toNat then 0 else incremented
      if next = firstRegionId then some ⟨[regionId], none, regions⟩
      else (self.allocateLoop payloadSize firstRegionId fuel next regions).map fun allocation =>
        { allocation with calls := regionId :: allocation.calls }

/-- `mpsc_bus_handle::allocate_record_buffer_inplace` with the value that the span id or the
thread id is spread by; `none` if more than `fuel` calls of `allocate` are needed. -/
def allocateRecordBufferInplace (self : Handle) (fuel : Nat) (messageSize : Nat) (spread : UInt32)
    (regions : Nat → Region) : Option Allocation :=
  if maxMessageSize < messageSize then some ⟨[], none, regions⟩
  else
    let firstRegionId := (hashToIndex spread self.numRegions).toNat
    self.allocateLoop messageSize firstRegionId fuel firstRegionId regions

end Handle

/-! ## One region -/

/-- A state that producers and the consumer bring a region to, one access after the other. -/
def Region.Reachable (regionEnd : Nat) (region : Region) : Prop :=
  ∃ accesses s, Shared.run regionEnd accesses .init = some s ∧ s.bus.region = region

/-- `allocate` returns `not_enough_space`. -/
def Region.Refuses (regionEnd payloadSize : Nat) (region : Region) : Prop :=
  (region.allocate regionEnd payloadSize).1 = none

/-- The allocation hand has moved and a header has been stored where it was, for a payload inside
of the data area. The rest of the region is as before. -/
structure Region.Takes (regionEnd payloadSize : Nat) (region region' : Region)
    (out : OutputBuffer) : Prop where
  msgCtrl_eq : out.msgCtrl = region.allocPtr
  size_eq : out.size = allocSizeOf payloadSize
  inside : out.data + out.size ≤ regionEnd
  moved : region'.allocPtr ≠ region.allocPtr
  readPtr_eq : region'.readPtr = region.readPtr
  head : loadWord region'.data out.msgCtrl = lockedHead payloadSize
  rest : ∀ x, x < out.msgCtrl ∨ out.msgCtrl + 4 ≤ x → region'.data x = region.data x

section

variable {regionEnd n : Nat} {region region' : Region} {out : OutputBuffer}

theorem Region.allocate_of_none (n : Nat)
    (h : place regionEnd region.readPtr region.allocPtr (allocSizeOf n) = none) :
    region.allocate regionEnd n = (none, region) := by
  simp only [Region.allocate, h]

theorem Region.allocate_of_some {n : Nat} {x : Nat × Nat}
    (h : place regionEnd region.readPtr region.allocPtr (allocSizeOf n) = some x) :
    region.allocate regionEnd n = (some ⟨region.allocPtr, x.1, allocSizeOf n⟩,
      { region with
        allocPtr := x.2
        data := storeWord region.data region.allocPtr (lockedHead n) }) := by
  simp only [Region.allocate, h]

theorem Region.refuses_iff : region.Refuses regionEnd n ↔
    place regionEnd region.readPtr region.allocPtr (allocSizeOf n) = none := by
  unfold Region.Refuses
  cases hplace : place regionEnd region.readPtr region.allocPtr (allocSizeOf n) with
  | none => simp [allocate_of_none n hplace]
  | some x => simp [allocate_of_some hplace]

/-- A region that refuses stays as it is. -/
theorem Region.Refuses.allocate_eq (h : region.Refuses regionEnd n) :
    region.allocate regionEnd n = (none, region) :=
  allocate_of_none n (refuses_iff.mp h)

/-- `allocate` alone is the sequence of its accesses in a run. -/
theorem Shared.run_allocate {s : Shared} {p : Nat} (hidle : s.producers p = .idle)
    (hn : n ≤ maxMessageSize) (h : ¬s.bus.region.Refuses regionEnd n) :
    ∃ s', Shared.run regionEnd (allocateAlone p n) s = some s' ∧
      s'.bus.region = (s.bus.region.allocate regionEnd n).2 := by
  obtain ⟨x, hplace⟩ := Option.ne_none_iff_exists'.mp (mt Region.refuses_iff.mpr h)
  rw [Region.allocate_of_some hplace]
  simp [Shared.run, Runs.run, allocateAlone, Shared.step, hidle, Shared.enter, Bus.reserve,
    Bus.storeHead, hplace, Nat.not_lt.mpr hn]

end

section Hands

variable {regionEnd n : Nat} {region region' : Region} {out : OutputBuffer}
  (hE : regionEnd % 4 = 0) (hroom : regionEnd + 2 ^ 29 < 2 ^ 32)
include hE hroom

theorem Region.Reachable.hands (hpos : 0 < regionEnd) (h : region.Reachable regionEnd) :
    Hand regionEnd region.readPtr ∧ Hand regionEnd region.allocPtr := by
  obtain ⟨accesses, s, hrun, rfl⟩ := h
  have hands := (Shared.init_hands hpos).run hE hroom hrun
  exact ⟨hands.bus.read, hands.bus.alloc⟩

variable (hr : Hand regionEnd region.readPtr) (ha : Hand regionEnd region.allocPtr)
  (hn : n ≤ maxMessageSize)
include hr ha hn

/-- A region admits the messages that do not fill the ring. -/
theorem Region.refuses_iff_full : region.Refuses regionEnd n ↔
    regionEnd ≤ Ring.dist regionEnd region.readPtr region.allocPtr +
      span regionEnd region.allocPtr (allocSizeOf n) := by
  have hfits : regionEnd + allocSizeOf n < 2 ^ 32 := by have := allocSizeOf_le hn; omega
  have hroom := place_isSome_iff hE hr.1 ha.1 ha.2 hfits
  rw [Region.refuses_iff, ← Option.isNone_iff_eq_none, ← Option.not_isSome, Bool.not_eq_true',
    ← Bool.not_eq_true, hroom, not_lt]

theorem Region.allocate_takes (h : region.allocate regionEnd n = (some out, region')) :
    region.Takes regionEnd n region' out := by
  have hadmits : ¬region.Refuses regionEnd n := by
    intro hrefuses
    rw [hrefuses.allocate_eq] at h
    cases h
  obtain ⟨x, hplace⟩ := Option.ne_none_iff_exists'.mp (mt Region.refuses_iff.mpr hadmits)
  rw [Region.allocate_of_some hplace] at h
  cases h
  have hsize := allocSizeOf_spec hn
  have hfits : regionEnd + allocSizeOf n < 2 ^ 32 := by have := allocSizeOf_le hn; omega
  have hroomLeft := mt (Region.refuses_iff_full hE hroom hr ha hn).mpr hadmits
  refine ⟨rfl, rfl, (place_inside hE hroom hn hr ha hplace).2.1, fun hstays => ?_, rfl,
    loadWord_storeWord _ _ (lockedHead_lt hn), fun y hy => storeWord_outside _ _ hy⟩
  -- the hand goes on by the span of the message, which is neither empty nor a whole lap
  have hx := place_eq hE hr.1 ha.1 ha.2 hfits hplace
  have hnext : nextPos regionEnd region.allocPtr (allocSizeOf n) = Ring.advance regionEnd
      region.allocPtr (span regionEnd region.allocPtr (allocSizeOf n)) := nextPos_eq_advance ha.1
  have hspan : 0 < span regionEnd region.allocPtr (allocSizeOf n) := by
    have := ha.1
    unfold span
    split_ifs <;> omega
  have hdist := Ring.dist_advance ha.1 (n := span regionEnd region.allocPtr (allocSizeOf n))
    (by omega)
  have hback : nextPos regionEnd region.allocPtr (allocSizeOf n) = region.allocPtr :=
    (congrArg Prod.snd hx).symm.trans hstays
  rw [← hnext, hback, Ring.dist_self] at hdist
  omega

/-- Where the hands meet, half of the data area can be had in one piece. -/
theorem Region.drained_admits (hdrained : region.readPtr = region.allocPtr)
    (hhalf : allocSizeOf n + 4 ≤ regionEnd / 2) : ¬region.Refuses regionEnd n := by
  have := ha.1
  rw [Region.refuses_iff_full hE hroom hr ha hn, hdrained, Ring.dist_self, span]
  split_ifs <;> omega

end Hands

/-! ## All regions -/

theorem hashToIndex_toNat (h buckets : UInt32) :
    (hashToIndex h buckets).toNat = h.toNat * buckets.toNat / 2 ^ 32 := by
  have hprod : h.toNat * buckets.toNat ≤ (2 ^ 32 - 1) * (2 ^ 32 - 1) :=
    Nat.mul_le_mul (Nat.le_pred_of_lt h.toNat_lt) (Nat.le_pred_of_lt buckets.toNat_lt)
  have hmul : (h.toUInt64 * buckets.toUInt64).toNat = h.toNat * buckets.toNat := by
    rw [UInt64.toNat_mul, UInt32.toNat_toUInt64, UInt32.toNat_toUInt64]
    exact Nat.mod_eq_of_lt (by omega)
  have hshift : ((h.toUInt64 * buckets.toUInt64) >>> 32).toNat =
      h.toNat * buckets.toNat / 2 ^ 32 := by
    rw [UInt64.toNat_shiftRight, hmul, Nat.shiftRight_eq_div_pow]
    rfl
  rw [hashToIndex, UInt64.toNat_toUInt32, hshift]
  exact Nat.mod_eq_of_lt (by omega)

/-- Every value is spread to one of the buckets. -/
theorem hashToIndex_lt (h : UInt32) {buckets : UInt32} (hb : 1 ≤ buckets.toNat) :
    (hashToIndex h buckets).toNat < buckets.toNat := by
  rw [hashToIndex_toNat, Nat.div_lt_iff_lt_mul (by decide), Nat.mul_comm]
  exact Nat.mul_lt_mul_of_pos_left h.toNat_lt hb

/-- The regions of `order` have been asked one after the other, up to one that has room. -/
inductive Asked (regionEnd payloadSize : Nat) (regions : Nat → Region) (order : List Nat) :
    Allocation → Prop
  | found {before after : List Nat} {which : Nat} {out : OutputBuffer} {region : Region}
      (horder : order = before ++ which :: after)
      (hbefore : ∀ i ∈ before, (regions i).Refuses regionEnd payloadSize)
      (hout : (regions which).allocate regionEnd payloadSize = (some out, region)) :
      Asked regionEnd payloadSize regions order
        ⟨before ++ [which], some (which, out), Function.update regions which region⟩
  | exhausted (hall : ∀ i ∈ order, (regions i).Refuses regionEnd payloadSize) :
      Asked regionEnd payloadSize regions order ⟨order, none, regions⟩

theorem Asked.cons {regionEnd n : Nat} {regions : Nat → Region} {order : List Nat}
    {allocation : Allocation} {i : Nat} (hi : (regions i).Refuses regionEnd n)
    (h : Asked regionEnd n regions order allocation) :
    Asked regionEnd n regions (i :: order)
      { allocation with calls := i :: allocation.calls } := by
  cases h with
  | found horder hbefore hout =>
    exact .found (congrArg (i :: ·) horder) (List.forall_mem_cons.mpr ⟨hi, hbefore⟩) hout
  | exhausted hall => exact .exhausted (List.forall_mem_cons.mpr ⟨hi, hall⟩)

/-- The loop asks the regions that are left on the way around. -/
theorem Handle.allocateLoop_asked (self : Handle) (n : Nat) {first : Nat}
    (hfirst : first < self.numRegions.toNat) (regions : Nat → Region) {fuel k : Nat}
    (hleft : k + fuel = self.numRegions.toNat) (hfuel : fuel ≠ 0) :
    ∃ allocation, self.allocateLoop n first fuel (Ring.advance self.numRegions.toNat first k)
        regions = some allocation ∧
      Asked self.regionEnd n regions ((Ring.around self.numRegions.toNat first
        self.numRegions.toNat).drop k) allocation := by
  have hsize : self.numRegions.toNat < 2 ^ 32 := self.numRegions.toNat_lt
  induction fuel generalizing k with
  | zero => contradiction
  | succ fuel ih =>
    have hk : k < self.numRegions.toNat := by omega
    rw [Ring.drop_around hk, allocateLoop]
    have hlt := Ring.advance_lt hfirst hk.le
    have hnext := Ring.next_advance hfirst hk
    generalize hregion : Ring.advance self.numRegions.toNat first k = regionId at hlt hnext ⊢
    cases hout : (regions regionId).allocate self.regionEnd n with
    | mk out region =>
    cases out with
    | some out => exact ⟨_, rfl, .found (List.nil_append _).symm nofun hout⟩
    | none =>
      have hrefuses : (regions regionId).Refuses self.regionEnd n := congrArg Prod.fst hout
      have hsame : region = regions regionId :=
        (congrArg Prod.snd (hout.symm.trans hrefuses.allocate_eq))
      have hwrap : (if u32 (regionId + 1) = self.numRegions.toNat then 0 else u32 (regionId + 1)) =
          Ring.next self.numRegions.toNat regionId := by
        rw [u32_of_lt (by omega)]
        rfl
      simp only [hsame, Function.update_eq_self, hwrap, hnext]
      by_cases hlast : k + 1 = self.numRegions.toNat
      · rw [if_pos (by rw [hlast, Ring.advance_size]), hlast, List.drop_of_length_le (by simp)]
        exact ⟨_, rfl, .exhausted (by simpa using hrefuses)⟩
      · have hother : Ring.advance self.numRegions.toNat first (k + 1) ≠ first := fun hback => by
          have hzero := hback.trans (Ring.advance_zero hfirst).symm
          have := (Ring.advance_inj hfirst (by omega) (by omega)).mp hzero
          omega
        obtain ⟨allocation, hloop, hasked⟩ := ih (k := k + 1) (by omega) (by omega)
        rw [if_neg hother, hloop]
        exact ⟨_, rfl, hasked.cons hrefuses⟩

/-- The outcome of `allocate_record_buffer_inplace`. -/
structure Handle.Completes (self : Handle) (payloadSize : Nat) (spread : UInt32)
    (regions : Nat → Region) (allocation : Allocation) : Prop where
  cyclic : ∃ calls ≤ self.numRegions.toNat, allocation.calls =
    Ring.around self.numRegions.toNat (hashToIndex spread self.numRegions).toNat calls
  nodup : allocation.calls.Nodup
  full_iff : allocation.result = none ↔
    ∀ which < self.numRegions.toNat, (regions which).Refuses self.regionEnd payloadSize
  full : allocation.result = none → allocation.regions = regions
  taken : ∀ which out, allocation.result = some (which, out) →
    which < self.numRegions.toNat ∧
      (∃ before, allocation.calls = before ++ [which] ∧
        ∀ i ∈ before, (regions i).Refuses self.regionEnd payloadSize) ∧
      (regions which).Takes self.regionEnd payloadSize (allocation.regions which) out ∧
      ∀ other, other ≠ which → allocation.regions other = regions other

theorem Asked.completes {self : Handle} {n : Nat} {spread : UInt32} {regions : Nat → Region}
    {allocation : Allocation} (hn : 1 ≤ self.numRegions.toNat)
    (hE : self.regionEnd % 4 = 0) (hroom : self.regionEnd + 2 ^ 29 < 2 ^ 32)
    (hands : ∀ which < self.numRegions.toNat, Hand self.regionEnd (regions which).readPtr ∧
      Hand self.regionEnd (regions which).allocPtr)
    (hsize : n ≤ maxMessageSize)
    (h : Asked self.regionEnd n regions (Ring.around self.numRegions.toNat
      (hashToIndex spread self.numRegions).toNat self.numRegions.toNat) allocation) :
    self.Completes n spread regions allocation := by
  have hfirst := hashToIndex_lt spread hn
  generalize hspread : (hashToIndex spread self.numRegions).toNat = first at h hfirst
  have hmem : ∀ {which}, which ∈ Ring.around self.numRegions.toNat first self.numRegions.toNat ↔
      which < self.numRegions.toNat := Ring.mem_around_size hfirst
  cases h with
  | @found before after which out region horder hbefore hout =>
    have hwhich : which < self.numRegions.toNat := hmem.mp (horder ▸ by simp)
    have hlen := congrArg List.length horder
    simp only [Ring.length_around, List.length_append, List.length_cons] at hlen
    have hcalls : before ++ [which] =
        Ring.around self.numRegions.toNat first (before.length + 1) := by
      rw [← Ring.take_around (by omega), horder, List.append_cons before which after,
        List.take_left' (by simp)]
    refine ⟨⟨_, by omega, hspread ▸ hcalls⟩, hcalls ▸ Ring.around_nodup hfirst (by omega), ?_,
      nofun, ?_⟩
    · refine iff_of_false nofun fun hall => ?_
      rw [(hall which hwhich).allocate_eq] at hout
      cases hout
    · rintro _ _ ⟨⟩
      refine ⟨hwhich, ⟨before, rfl, hbefore⟩, ?_, fun other hne => Function.update_of_ne hne _ _⟩
      have htakes := Region.allocate_takes hE hroom (hands which hwhich).1 (hands which hwhich).2
        hsize hout
      simpa using htakes
  | exhausted hall =>
    refine ⟨⟨_, le_rfl, hspread ▸ rfl⟩, Ring.around_nodup hfirst le_rfl, ?_, fun _ => rfl, nofun⟩
    exact iff_of_true rfl fun which hwhich => hall which (hmem.mpr hwhich)

/-- Wherever the hands of the regions have stopped, `allocate_record_buffer_inplace` is done after
one call for each region at most, finds the room that there is, and a drained region has room for
half of it in one piece. -/
theorem allocate_complete (self : Handle) (hn : 1 ≤ self.numRegions.toNat)
    (hpos : 0 < self.regionEnd) (hE : self.regionEnd % 4 = 0)
    (hroom : self.regionEnd + 2 ^ 29 < 2 ^ 32) (regions : Nat → Region)
    (hreach : ∀ which < self.numRegions.toNat, (regions which).Reachable self.regionEnd)
    (messageSize : Nat) (hsize : messageSize ≤ maxMessageSize) (spread : UInt32) :
    (∃ allocation, self.allocateRecordBufferInplace self.numRegions.toNat messageSize spread
        regions = some allocation ∧
      self.Completes messageSize spread regions allocation) ∧
    ∀ which < self.numRegions.toNat, (regions which).readPtr = (regions which).allocPtr →
      allocSizeOf messageSize + 4 ≤ self.regionEnd / 2 →
      ¬(regions which).Refuses self.regionEnd messageSize := by
  have hands : ∀ which < self.numRegions.toNat, Hand self.regionEnd (regions which).readPtr ∧
      Hand self.regionEnd (regions which).allocPtr :=
    fun which hwhich => (hreach which hwhich).hands hE hroom hpos
  constructor
  · have hfirst := hashToIndex_lt spread hn
    obtain ⟨allocation, hloop, hasked⟩ := self.allocateLoop_asked messageSize hfirst regions
      (Nat.zero_add _) (by omega)
    rw [Ring.advance_zero hfirst] at hloop
    refine ⟨allocation, ?_, hasked.completes hn hE hroom hands hsize⟩
    rw [Handle.allocateRecordBufferInplace, if_neg (Nat.not_lt.mpr hsize)]
    exact hloop
  · intro which hwhich hdrained hhalf
    obtain ⟨hr, ha⟩ := hands which hwhich
    exact Region.drained_admits hE hroom hr ha hsize hdrained hhalf

/-- A message that nearly fills its region. -/
def filledRun : List Access :=
  [.loadRead 0 4000, .loadAlloc 0, .exchange 0 false, .storeHead 0]

/-- A message that has been consumed, so that the hands have met behind it. -/
def drainedRun : List Access :=
  [.loadRead 0 2000, .loadAlloc 0, .exchange 0 false, .storeHead 0, .commit 0] ++
    List.replicate 10 .consume

/-- Two regions, the first full and the second drained. -/
theorem allocate_complete_used : ∃ filled drained,
    Shared.run 4032 filledRun .init = some filled ∧
    Shared.run 4032 drainedRun .init = some drained ∧
    let regions := fun which => if which = 0 then filled.bus.region else drained.bus.region
    (∃ allocation,
      (⟨2, 4096⟩ : Handle).allocateRecordBufferInplace 2 2000 0 regions = some allocation ∧
      (⟨2, 4096⟩ : Handle).Completes 2000 0 regions allocation) ∧
    ¬(regions 1).Refuses 4032 2000 := by
  obtain ⟨filled, hfilled⟩ := Option.isSome_iff_exists.mp
    (show (Shared.run 4032 filledRun .init).isSome by decide)
  obtain ⟨drained, hdrained⟩ := Option.isSome_iff_exists.mp
    (show (Shared.run 4032 drainedRun .init).isSome by decide)
  have hmet : (Shared.run 4032 drainedRun .init).map (fun s =>
      decide (s.bus.region.readPtr = s.bus.region.allocPtr)) = some true := by decide
  rw [hdrained, Option.map_some, Option.some.injEq, decide_eq_true_iff] at hmet
  refine ⟨filled, drained, hfilled, hdrained, ?_⟩
  have hcomplete := allocate_complete ⟨2, 4096⟩ (by decide) (by decide) (by decide) (by decide)
    (fun which => if which = 0 then filled.bus.region else drained.bus.region)
    (fun which _ => by
      split
      · exact ⟨_, filled, hfilled, rfl⟩
      · exact ⟨_, drained, hdrained, rfl⟩)
    2000 (by decide) 0
  exact ⟨hcomplete.1, hcomplete.2 1 (by decide) hmet (by decide)⟩

end Deeplog.Mpsc

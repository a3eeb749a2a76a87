import Deeplog.Mpsc.Create
import Deeplog.Mpsc.Hands

/-!
# The range of positions

Positions are 32-bit numbers, regions may have almost 4 GiB and messages 512 MiB. As long as a
region leaves room for the largest message below `2 ^ 32`, no sum of a position and a message
wraps. The bounds on the hands do not depend on what the slots hold, so they survive a read hand
that is out of date.
-/

namespace Deeplog.Mpsc

/-- A block of the data area. -/
def Hand (regionEnd p : Nat) : Prop := p < regionEnd ∧ p % 4 = 0

/-- A message lies where the placement rule puts it. -/
structure Message.Placed (regionEnd : Nat) (m : Message) : Prop where
  size_le : m.size ≤ maxMessageSize
  ctrl : Hand regionEnd m.ctrl
  payload_eq : m.payload = payloadPos regionEnd m.ctrl m.allocSize
  payload_le : m.payload + m.allocSize ≤ regionEnd

/-- The positions that the consumer works with. -/
def Consumer.Hands (regionEnd : Nat) : Consumer → Prop
  | .idle => True
  | .loaded originalReadPos => Hand regionEnd originalReadPos
  | .scanning originalReadPos readPos _ | .gathered originalReadPos readPos _
  | .marking originalReadPos readPos _ | .clearing originalReadPos readPos _ _ =>
    Hand regionEnd originalReadPos ∧ Hand regionEnd readPos

structure Bus.Hands (regionEnd : Nat) (b : Bus) : Prop where
  read : Hand regionEnd b.region.readPtr
  alloc : Hand regionEnd b.region.allocPtr
  messages : ∀ m ∈ b.messages, m.Placed regionEnd
  consumer : b.consumer.Hands regionEnd

def Producer.Hands (regionEnd : Nat) : Producer → Prop
  | .readLoaded payloadSize readHand => payloadSize ≤ maxMessageSize ∧ Hand regionEnd readHand
  | .allocLoaded payloadSize readHand allocHand =>
    payloadSize ≤ maxMessageSize ∧ Hand regionEnd readHand ∧ Hand regionEnd allocHand
  | _ => True

structure Shared.Hands (regionEnd : Nat) (s : Shared) : Prop where
  bus : s.bus.Hands regionEnd
  producers : ∀ p, (s.producers p).Hands regionEnd

/-! ## Steps -/

theorem allocSizeOf_le {n : Nat} (h : n ≤ maxMessageSize) : allocSizeOf n ≤ 2 ^ 29 := by
  have hn := allocSizeOf_spec h
  unfold maxMessageSize at h
  omega

section Steps

variable {regionEnd : Nat} (hE : regionEnd % 4 = 0) (hroom : regionEnd + 2 ^ 29 < 2 ^ 32)
include hE hroom

/-- A message that gets past the check of `allocate` lies inside of the region. -/
theorem place_inside {readHand allocHand n : Nat} {x : Nat × Nat} (hn : n ≤ maxMessageSize)
    (hr : Hand regionEnd readHand) (ha : Hand regionEnd allocHand)
    (h : place regionEnd readHand allocHand (allocSizeOf n) = some x) :
    x.1 = payloadPos regionEnd allocHand (allocSizeOf n) ∧
      x.1 + allocSizeOf n ≤ regionEnd ∧ Hand regionEnd x.2 := by
  have hsize := allocSizeOf_spec hn
  have hfits : regionEnd + allocSizeOf n < 2 ^ 32 := by have := allocSizeOf_le hn; omega
  have hx := place_eq hE hr.1 ha.1 ha.2 hfits h
  obtain ⟨h4, h8⟩ := place_no_wrap ha.1 ha.2 hE hfits
  have hnext : nextPos regionEnd allocHand (allocSizeOf n) % 4 = 0 :=
    nextPos_aligned ha.2 hsize.2.2
  have hlt := ha.1
  have hrlt := hr.1
  subst hx
  simp only [place, h4, h8] at h
  refine ⟨rfl, ?_, ?_, hnext⟩
  · unfold payloadPos
    split_ifs at h ⊢ <;> omega
  · unfold nextPos
    split_ifs at h ⊢ <;> omega

/-- A reader that stays inside of the block goes on to a block. -/
theorem stepOver_hand {start allocSize : Nat} (hpos : 0 < regionEnd) (hs : start % 4 = 0)
    (ha : allocSize % 4 = 0)
    (hin : u32 (start + blockSize) + allocSize ≤ regionEnd) :
    Hand regionEnd (stepOver regionEnd start allocSize) := by
  have hnext : u32 (start + u32 (allocSize + blockSize)) = u32 (start + blockSize) + allocSize := by
    unfold u32 blockSize at *
    omega
  simp only [Hand, stepOver, hnext]
  unfold u32 blockSize at *
  split_ifs <;> omega

omit hroom hE in
theorem wrapStart_aligned {readPos : Nat} (msgSize : Nat) (hp : readPos % 4 = 0) :
    wrapStart regionEnd readPos msgSize % 4 = 0 := by
  unfold wrapStart
  split_ifs
  · decide
  · exact hp

variable {b b' : Bus}

theorem Bus.Hands.reserve {readHand n : Nat} (h : b.Hands regionEnd) (hn : n ≤ maxMessageSize)
    (hr : Hand regionEnd readHand) (hb : b.reserve regionEnd readHand n = some b') :
    b'.Hands regionEnd := by
  obtain ⟨payloadPosition, payloadEnd, hp, rfl⟩ := Bus.reserve_cases hb
  obtain ⟨hpay, hle, hnext⟩ := place_inside hE hroom hn hr h.alloc hp
  refine ⟨h.read, hnext, fun m hm => ?_, h.consumer⟩
  rcases List.mem_append.mp hm with hm | hm
  · exact h.messages m hm
  · rw [List.mem_singleton.mp hm]
    exact ⟨hn, h.alloc, hpay, hle⟩

end Steps

section Bus

variable {regionEnd : Nat} {b b' : Bus}

theorem Message.Placed.congr {m m' : Message} (h : m.Placed regionEnd) (hctrl : m'.ctrl = m.ctrl)
    (hpay : m'.payload = m.payload) (hsize : m'.size = m.size) : m'.Placed regionEnd := by
  have halloc : m'.allocSize = m.allocSize := congrArg allocSizeOf hsize
  exact ⟨hsize ▸ h.size_le, hctrl ▸ h.ctrl, by rw [hpay, hctrl, halloc]; exact h.payload_eq,
    by rw [hpay, halloc]; exact h.payload_le⟩

theorem mem_modify {α : Type} {f : α → α} {l : List α} {i : Nat} {x : α}
    (h : x ∈ l.modify i f) : x ∈ l ∨ ∃ y ∈ l, x = f y := by
  induction l generalizing i with
  | nil => simp at h
  | cons y l ih =>
    cases i with
    | zero =>
      rcases List.mem_cons.mp h with rfl | h
      · exact .inr ⟨y, by simp, rfl⟩
      · exact .inl (by simp [h])
    | succ i =>
      rcases List.mem_cons.mp h with rfl | h
      · exact .inl (by simp)
      · rcases ih h with h | ⟨z, hz, rfl⟩
        · exact .inl (by simp [h])
        · exact .inr ⟨z, by simp [hz], rfl⟩

/-- Steps that keep the hands, and change only stage and bytes of a message. -/
theorem Bus.Hands.update {i : Nat} {f : Message → Message} (h : b.Hands regionEnd)
    (hread : b'.region.readPtr = b.region.readPtr) (halloc : b'.region.allocPtr = b.region.allocPtr)
    (hmessages : b'.messages = b.messages.modify i f)
    (hf : ∀ m, (f m).ctrl = m.ctrl ∧ (f m).payload = m.payload ∧ (f m).size = m.size)
    (hc : b'.consumer.Hands regionEnd) : b'.Hands regionEnd := by
  refine ⟨hread ▸ h.read, halloc ▸ h.alloc, fun m hm => ?_, hc⟩
  rw [hmessages] at hm
  rcases mem_modify hm with hm | ⟨n, hn, rfl⟩
  · exact h.messages m hm
  · exact (h.messages n hn).congr (hf n).1 (hf n).2.1 (hf n).2.2

theorem Bus.Hands.storeHead {i : Nat} (h : b.Hands regionEnd) (hb : b.storeHead i = some b') :
    b'.Hands regionEnd := by
  obtain ⟨m, _, _, rfl⟩ := Bus.storeHead_cases hb
  exact h.update rfl rfl rfl (fun _ => ⟨rfl, rfl, rfl⟩) h.consumer

theorem Bus.Hands.write {i o : Nat} {value : UInt8} (h : b.Hands regionEnd)
    (hb : b.write i o value = some b') : b'.Hands regionEnd := by
  obtain ⟨m, _, _, _, rfl⟩ := Bus.write_cases hb
  exact h.update rfl rfl rfl (fun _ => ⟨rfl, rfl, rfl⟩) h.consumer

theorem Bus.Hands.commit {i : Nat} (h : b.Hands regionEnd) (hb : b.commit i = some b') :
    b'.Hands regionEnd := by
  obtain ⟨m, _, _, rfl⟩ := Bus.commit_cases hb
  exact h.update rfl rfl rfl (fun _ => ⟨rfl, rfl, rfl⟩) h.consumer

theorem Bus.Hands.with_consumer (h : b.Hands regionEnd) {c : Consumer}
    (hc : c.Hands regionEnd) : ({ b with consumer := c } : Bus).Hands regionEnd :=
  ⟨h.read, h.alloc, h.messages, hc⟩

theorem Bus.Hands.scan (hE : regionEnd % 4 = 0) (hroom : regionEnd + 2 ^ 29 < 2 ^ 32)
    (h : b.Hands regionEnd) {originalReadPos readPos : Nat} {infos : List Info}
    (ho : Hand regionEnd originalReadPos) (hp : Hand regionEnd readPos)
    (hb : b.scan regionEnd originalReadPos readPos infos = some b') : b'.Hands regionEnd := by
  simp only [Bus.scan] at hb
  split at hb
  · cases hb
    exact h.with_consumer ⟨ho, hp⟩
  · split at hb
    case isFalse => cases hb
    case isTrue hin =>
      cases hb
      have ha : roundUpP2 (loadWord b.region.data readPos) blockSize % 4 = 0 :=
        Nat.mul_mod_left _ _
      have hpos : 0 < regionEnd := Nat.lt_of_le_of_lt (Nat.zero_le _) hp.1
      exact h.with_consumer ⟨ho, stepOver_hand hE hroom hpos (wrapStart_aligned _ hp.2) ha hin⟩

theorem Bus.Hands.consume (hE : regionEnd % 4 = 0) (hroom : regionEnd + 2 ^ 29 < 2 ^ 32)
    (h : b.Hands regionEnd) (hb : b.consume regionEnd = some b') : b'.Hands regionEnd := by
  have hc := h.consumer
  unfold Bus.consume at hb
  split at hb <;> simp only [*, Consumer.Hands] at hc
  case h_1 =>
    cases hb
    exact h.with_consumer h.read
  case h_2 =>
    split at hb <;> cases hb
    · exact h.with_consumer trivial
    · exact h.with_consumer ⟨hc, hc⟩
  case h_3 =>
    split at hb
    · exact h.scan hE hroom hc.1 hc.2 hb
    · cases hb
      exact h.with_consumer hc
  case h_4 =>
    split at hb
    · split at hb <;> cases hb
      · exact h.with_consumer trivial
      · exact ⟨hc.2, h.alloc, h.messages, trivial⟩
    · cases hb
      exact ⟨h.read, h.alloc, h.messages, hc⟩
  case h_5 =>
    cases hb
    exact h.with_consumer hc
  case h_6 =>
    cases hb
    exact h.update rfl rfl rfl (fun _ => ⟨rfl, rfl, rfl⟩) hc
  case h_7 =>
    cases hb
    exact h.update rfl rfl rfl (fun _ => ⟨rfl, rfl, rfl⟩) hc

end Bus

namespace Shared

variable {regionEnd : Nat} {s s' : Shared}

theorem init_hands (hpos : 0 < regionEnd) : Shared.init.Hands regionEnd :=
  ⟨⟨⟨hpos, rfl⟩, ⟨hpos, rfl⟩, nofun, trivial⟩, fun _ => trivial⟩

theorem Hands.enter (h : s.Hands regionEnd) {p : Nat} {c : Producer} (hc : c.Hands regionEnd) :
    (s.enter p c).Hands regionEnd := ⟨h.bus, forall_enter h.producers hc⟩

theorem Hands.with_bus (h : s.Hands regionEnd) {bus : Bus} (hb : bus.Hands regionEnd) :
    ({ s with bus } : Shared).Hands regionEnd := ⟨hb, h.producers⟩

/-- Every access keeps the hands in range, however old the read hand of its producer is. -/
theorem Hands.step (hE : regionEnd % 4 = 0) (hroom : regionEnd + 2 ^ 29 < 2 ^ 32)
    {access : Access} (h : s.Hands regionEnd) (hs : s.step regionEnd access = some s') :
    s'.Hands regionEnd := by
  cases access with
  | loadRead p payloadSize =>
    rcases loadRead_cases hs with rfl | ⟨hsize, rfl⟩
    · exact h
    · exact h.enter ⟨hsize, h.bus.read⟩
  | loadAlloc p =>
    obtain ⟨payloadSize, readHand, hp, rfl⟩ := loadAlloc_cases hs
    have hprod := h.producers p
    rw [hp] at hprod
    exact h.enter ⟨hprod.1, hprod.2, h.bus.alloc⟩
  | exchange p spurious =>
    obtain ⟨payloadSize, readHand, allocHand, hp, hs⟩ := exchange_cases hs
    have hprod := h.producers p
    rw [hp] at hprod
    rcases hs with rfl | ⟨rfl, _, _, bus, hb, rfl⟩ | rfl
    · exact h.enter trivial
    · exact (h.with_bus (h.bus.reserve hE hroom hprod.1 hprod.2.1 hb)).enter trivial
    · exact h.enter ⟨hprod.1, hprod.2.1, h.bus.alloc⟩
  | storeHead p =>
    obtain ⟨i, bus, hb, rfl⟩ := storeHead_cases hs
    exact (h.with_bus (h.bus.storeHead hb)).enter trivial
  | write i o value =>
    obtain ⟨bus, hb, rfl⟩ := Option.map_eq_some_iff.mp hs
    exact h.with_bus (h.bus.write hb)
  | commit i =>
    obtain ⟨bus, hb, rfl⟩ := Option.map_eq_some_iff.mp hs
    exact h.with_bus (h.bus.commit hb)
  | consume =>
    obtain ⟨bus, hb, rfl⟩ := Option.map_eq_some_iff.mp hs
    exact h.with_bus (h.bus.consume hE hroom hb)

theorem Hands.run (hE : regionEnd % 4 = 0) (hroom : regionEnd + 2 ^ 29 < 2 ^ 32)
    {accesses : List Access} (h : s.Hands regionEnd)
    (hrun : Shared.run regionEnd accesses s = some s') : s'.Hands regionEnd :=
  have hall : Runs.Along (Shared.step regionEnd) (fun _ _ => True) accesses s :=
    Runs.Along.of_forall fun _ _ _ => trivial
  Runs.invariant (fun _ _ _ _ h hs => h.step hE hroom hs) hall h hrun

/-! ## Sums -/

/-- Where `read_region` and `recover_region` form their sums: the read hand, the position of the
consumer, and the headers of the messages. -/
def ReadPosition (s : Shared) (readPos : Nat) : Prop :=
  readPos = s.bus.region.readPtr ∨
    (∃ originalReadPos infos, s.bus.consumer = .scanning originalReadPos readPos infos) ∨
    ∃ m ∈ s.bus.messages, readPos = m.ctrl

/-- Where `allocate` forms its sums: the allocation hand, and what producers have loaded of it. -/
def AllocPosition (s : Shared) (allocHand : Nat) : Prop :=
  allocHand = s.bus.region.allocPtr ∨
    ∃ p payloadSize readHand, s.producers p = .allocLoaded payloadSize readHand allocHand

/-- No sum of a position and a message of admitted size wraps, and what the sums are formed for:
messages lie inside of the region, the allocation hand is a block of it, and a reader that stands
at a message finds the payload where the allocator has put it. -/
structure InRange (regionEnd : Nat) (s : Shared) : Prop where
  allocate : ∀ n ≤ maxMessageSize, ∀ allocHand, s.AllocPosition allocHand →
    allocHand + messageHeaderSize + allocSizeOf n < 2 ^ 32
  read : ∀ n ≤ maxMessageSize, ∀ readPos, s.ReadPosition readPos → readPos + blockSize + n < 2 ^ 32
  alloc : s.bus.region.allocPtr < regionEnd ∧ s.bus.region.allocPtr % 4 = 0
  inside : ∀ m ∈ s.bus.messages, ∀ x, m.Covers x → x < regionEnd
  agree : ∀ m ∈ s.bus.messages, u32 (wrapStart regionEnd m.ctrl m.size + blockSize) = m.payload

theorem Hands.readPosition (h : s.Hands regionEnd) {readPos : Nat} (hp : s.ReadPosition readPos) :
    Hand regionEnd readPos := by
  rcases hp with rfl | ⟨orig, infos, hc⟩ | ⟨m, hm, rfl⟩
  · exact h.bus.read
  · have hcons := h.bus.consumer
    rw [hc] at hcons
    exact hcons.2
  · exact (h.bus.messages m hm).ctrl

theorem Hands.allocPosition (h : s.Hands regionEnd) {allocHand : Nat}
    (hp : s.AllocPosition allocHand) : Hand regionEnd allocHand := by
  rcases hp with rfl | ⟨p, n, readHand, hp⟩
  · exact h.bus.alloc
  · have hprod := h.producers p
    rw [hp] at hprod
    exact hprod.2.2

theorem Hands.inRange (hE : regionEnd % 4 = 0) (hroom : regionEnd + 2 ^ 29 < 2 ^ 32)
    (h : s.Hands regionEnd) : s.InRange regionEnd where
  allocate n hn allocHand hp := by
    obtain ⟨hlt, ha⟩ := h.allocPosition hp
    have := allocSizeOf_le hn
    unfold messageHeaderSize blockSize
    omega
  read n hn readPos hp := by
    obtain ⟨hlt, ha⟩ := h.readPosition hp
    unfold maxMessageSize at hn
    unfold blockSize
    omega
  alloc := h.bus.alloc
  inside m hm x hx := by
    have hp := h.bus.messages m hm
    obtain ⟨hlt, ha⟩ := hp.ctrl
    have hle := hp.payload_le
    unfold Message.Covers at hx
    omega
  agree m hm := by
    have hp := h.bus.messages m hm
    have hsize := hp.size_le
    have hplaced : m.WellPlaced regionEnd :=
      ⟨hsize, by have := allocSizeOf_le hsize; unfold Message.allocSize; omega, hp.ctrl.2,
        hp.payload_eq⟩
    unfold maxMessageSize at hsize
    exact hplaced.wrapStart_payload hE hp.ctrl.1 (by omega) rfl

/-! ## The last block -/

/-- The `k`-th producer reserves an empty message. -/
def reserveEmpty (k : Nat) : List Access := [.loadRead k 0, .loadAlloc k, .exchange k false]

theorem reserveEmpty_run (hE : regionEnd % 4 = 0) (hlt : regionEnd < 2 ^ 32) (k : Nat)
    (hk : 4 * k < regionEnd) : ∃ s, Shared.run regionEnd ((List.range k).flatMap reserveEmpty)
      .init = some s ∧ s.bus.region.readPtr = 0 ∧ s.bus.region.allocPtr = 4 * k ∧
      ∀ p, k ≤ p → s.producers p = .idle := by
  induction k with
  | zero => exact ⟨.init, rfl, rfl, rfl, fun _ _ => rfl⟩
  | succ k ih =>
    obtain ⟨s, hrun, hread, halloc, hidle⟩ := ih (by omega)
    have hplace : place regionEnd 0 (4 * k) (allocSizeOf 0) = some (4 * k + 4, 4 * (k + 1)) := by
      have hzero : allocSizeOf 0 = 0 := by decide
      have hsum : u32 (4 * k + 4) = 4 * k + 4 := u32_of_lt (by omega)
      simp only [place, hzero, messageHeaderSize, blockSize, hsum, Nat.add_zero, Nat.zero_le,
        if_true]
      rw [if_neg (by omega), Nat.mul_succ]
    have hread' : s.step regionEnd (.loadRead k 0) = some (s.enter k (.readLoaded 0 0)) := by
      simp [Shared.step, hidle k le_rfl, hread]
    have halloc' : (s.enter k (.readLoaded 0 0)).step regionEnd (.loadAlloc k) =
        some ((s.enter k (.readLoaded 0 0)).enter k (.allocLoaded 0 0 (4 * k))) := by
      simp [Shared.step, Shared.enter, halloc]
    obtain ⟨s', hstep, hread'', halloc'', hidle'⟩ : ∃ s',
        ((s.enter k (.readLoaded 0 0)).enter k (.allocLoaded 0 0 (4 * k))).step regionEnd
          (.exchange k false) = some s' ∧ s'.bus.region.readPtr = 0 ∧
        s'.bus.region.allocPtr = 4 * (k + 1) ∧ ∀ p, k + 1 ≤ p → s'.producers p = .idle := by
      simp only [Shared.step, Shared.enter, Function.update_self, hplace, halloc, and_self, if_true,
        Bus.reserve, Option.map_some]
      refine ⟨_, rfl, hread, rfl, fun p hp => ?_⟩
      have hne : p ≠ k := by omega
      simp [hne, hidle p (by omega)]
    refine ⟨s', ?_, hread'', halloc'', hidle'⟩
    rw [List.range_succ, List.flatMap_append]
    refine (Runs.run_append hrun).trans ?_
    simp [reserveEmpty, Runs.run, hread', halloc', hstep]

/-- In a region without room for the largest message above it, the sum of `allocate` wraps. -/
theorem not_inRange (hE : regionEnd % 4 = 0) (hpos : 0 < regionEnd) (hlt : regionEnd < 2 ^ 32)
    (hlarge : 2 ^ 32 ≤ regionEnd + 2 ^ 29) :
    ∃ accesses s, Shared.run regionEnd accesses .init = some s ∧ ¬ s.InRange regionEnd := by
  obtain ⟨s, hrun, -, halloc, -⟩ := reserveEmpty_run hE hlt (regionEnd / 4 - 1) (by omega)
  refine ⟨_, s, hrun, fun h => ?_⟩
  have hsum := h.allocate maxMessageSize le_rfl _ (.inl rfl)
  have hmax : allocSizeOf maxMessageSize = 2 ^ 29 := by decide
  rw [hmax, halloc, messageHeaderSize, blockSize] at hsum
  omega

end Shared

/-! ## Every bus that can be created -/

section Created

variable {codec : InfoCodec} {epoch : ClockEpoch} {backing : Backing}
  {numRegions regionSize : UInt32} {lockState : LockKind} {bus : Handle} {file : File}

theorem Created.regionEnd_spec (h : Created codec epoch numRegions regionSize bus file) :
    bus.regionEnd = realRegionSize regionSize - 64 ∧ bus.regionEnd % 4 = 0 ∧ 0 < bus.regionEnd ∧
      bus.regionEnd < 2 ^ 32 := by
  obtain ⟨hle, -, ha, hlt⟩ := h.accepted.realRegionSize_spec
  have hmin := h.accepted.min_le
  have heq : bus.regionEnd = realRegionSize regionSize - 64 := by
    rw [Handle.regionEnd, h.bus_eq, Handle.regionSize_toNat h.accepted]
    rfl
  unfold minRegionSize at hmin
  unfold pageSize at ha
  omega

/-- Positions stay in range in every region of a bus, in every reachable state and for every
admitted message, exactly if the size asked for leaves room for the largest message. -/
theorem positions_inRange_iff
    (h : mpscBus codec epoch backing numRegions regionSize lockState = .ok (bus, file)) :
    (∀ accesses s, Shared.run bus.regionEnd accesses .init = some s → s.InRange bus.regionEnd) ↔
      regionSize.toNat ≤ 0xe0000000 := by
  have hcreated := mpscBus_created h
  obtain ⟨heq, hE, hpos, hlt⟩ := hcreated.regionEnd_spec
  obtain ⟨hle, hround, ha, -⟩ := hcreated.accepted.realRegionSize_spec
  unfold pageSize at *
  constructor
  · intro hall
    by_contra hsmall
    obtain ⟨accesses, s, hrun, hnot⟩ := Shared.not_inRange hE hpos hlt (by omega)
    exact hnot (hall accesses s hrun)
  · intro hsmall accesses s hrun
    have hroom : bus.regionEnd + 2 ^ 29 < 2 ^ 32 := by omega
    exact ((Shared.init_hands hpos).run hE hroom hrun).inRange hE hroom

end Created

theorem positions_inRange_iff_page : ∃ bus file,
    mpscBus plainInfo sampleEpoch newFile 2 4096 .exclusive = .ok (bus, file) ∧
    ∀ accesses s, Shared.run bus.regionEnd accesses .init = some s → s.InRange bus.regionEnd := by
  obtain ⟨bus, file, h⟩ := mpscBus_newFile (show Accepted 2 4096 by decide)
  exact ⟨bus, file, h, (positions_inRange_iff h).mpr (by decide)⟩

/-- In the largest region that can be created, the sum of `allocate` wraps. -/
theorem positions_not_inRange : ¬ ∀ codec epoch backing numRegions regionSize lockState bus file,
    mpscBus codec epoch backing numRegions regionSize lockState = .ok (bus, file) →
      ∀ accesses s, Shared.run bus.regionEnd accesses .init = some s → s.InRange bus.regionEnd := by
  intro hall
  obtain ⟨bus, file, h⟩ := mpscBus_newFile (show Accepted 1 0xffffefff by decide)
  obtain ⟨heq, hE, hpos, hlt⟩ := (mpscBus_created h).regionEnd_spec
  have hreal : realRegionSize 0xffffefff = 0xfffff000 := by decide
  obtain ⟨accesses, s, hrun, hnot⟩ := Shared.not_inRange hE hpos hlt (by omega)
  exact hnot (hall _ _ _ _ _ _ bus file h accesses s hrun)

end Deeplog.Mpsc

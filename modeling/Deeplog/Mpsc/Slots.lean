import Deeplog.Lib.Ring
import Deeplog.Mpsc.Region

/-!
# Slots of a region and what lies between them

Every message reserved and not yet released owns a slot: its header word and its rounded-up
payload. `Pool` says that the slots follow each other around the data area from the read hand
to the allocation hand, that memory holds what the stage of each message prescribes, and that
every word outside of all slots carries the lock flag. The last part is what stops a reader.
-/

namespace Deeplog.Mpsc

/-- Progress of one message, from the `compare_exchange` to the `memset` of its payload. -/
inductive Stage where
  | reserved | headed | committed | consumed | cleared
  deriving DecidableEq, Repr

/-- A reserved message: where it lies, the requested payload size and the payload bytes as its
producer left them. -/
structure Message where
  ctrl : Nat
  payload : Nat
  size : Nat
  stage : Stage
  bytes : Nat → UInt8

namespace Message

def allocSize (m : Message) : Nat := allocSizeOf m.size

/-- The payload cut to the requested size. -/
def content (m : Message) : Bytes := (List.range m.size).map m.bytes

/-- The part of the ring that belongs to the message. -/
def segment (regionEnd : Nat) (m : Message) : Nat × Nat :=
  (m.ctrl, span regionEnd m.ctrl m.allocSize)

/-- The bytes of the header word and of the rounded-up payload. -/
def Covers (m : Message) (x : Nat) : Prop :=
  (m.ctrl ≤ x ∧ x < m.ctrl + 4) ∨ (m.payload ≤ x ∧ x < m.payload + m.allocSize)

instance (m : Message) (x : Nat) : Decidable (m.Covers x) := inferInstanceAs (Decidable (_ ∨ _))

/-- The slot is the one `place` computes for the header position. -/
structure WellPlaced (regionEnd : Nat) (m : Message) : Prop where
  size_le : m.size ≤ maxMessageSize
  no_wrap : regionEnd + m.allocSize < 2 ^ 32
  aligned : m.ctrl % 4 = 0
  payload_eq : m.payload = payloadPos regionEnd m.ctrl m.allocSize

/-- What the header word of a message holds. -/
def HeadOk (data : Nat → UInt8) (m : Message) : Prop :=
  match m.stage with
  | .reserved => Locked (loadWord data m.ctrl)
  | .headed => loadWord data m.ctrl = lockedHead m.size
  | .committed => loadWord data m.ctrl = m.size
  | .consumed | .cleared => loadWord data m.ctrl = consumedHead m.size

/-- What the payload of a message holds. -/
def PayloadOk (data : Nat → UInt8) (m : Message) : Prop :=
  match m.stage with
  | .reserved | .headed | .committed => ∀ o < m.allocSize, data (m.payload + o) = m.bytes o
  | .consumed => True
  | .cleared => ∀ o < m.allocSize, data (m.payload + o) = 0xfe

variable {regionEnd : Nat} {m : Message} {data data' : Nat → UInt8}

theorem WellPlaced.allocSize_spec (h : m.WellPlaced regionEnd) :
    m.size ≤ m.allocSize ∧ m.allocSize < m.size + 4 ∧ m.allocSize % 4 = 0 :=
  allocSizeOf_spec h.size_le

theorem WellPlaced.payload_aligned (h : m.WellPlaced regionEnd) : m.payload % 4 = 0 := by
  have ha := h.aligned
  rw [h.payload_eq]; unfold payloadPos; split_ifs <;> omega

/-- Covered bytes lie in the message's part of the ring. -/
theorem WellPlaced.inside (h : m.WellPlaced regionEnd) (hE : regionEnd % 4 = 0)
    (hc : m.ctrl < regionEnd) (hs : (m.segment regionEnd).2 < regionEnd) {x : Nat}
    (hx : m.Covers x) : x < regionEnd ∧ Ring.dist regionEnd m.ctrl x < (m.segment regionEnd).2 := by
  have ha := h.aligned
  have hp := h.payload_eq
  have hn := h.allocSize_spec
  revert hx hs hp
  simp only [segment, Covers, span, payloadPos, Ring.dist]
  split_ifs <;> omega

/-- The payload does not overlap the header word. -/
theorem WellPlaced.payload_apart (h : m.WellPlaced regionEnd) (hc : m.ctrl < regionEnd)
    (hs : (m.segment regionEnd).2 < regionEnd) {o : Nat} (ho : o < m.allocSize) :
    m.payload + o < m.ctrl ∨ m.ctrl + 4 ≤ m.payload + o := by
  have hp := h.payload_eq
  revert hs hp
  simp only [segment, span, payloadPos]
  split_ifs <;> omega

theorem WellPlaced.payload_storeWord (h : m.WellPlaced regionEnd) (hc : m.ctrl < regionEnd)
    (hs : (m.segment regionEnd).2 < regionEnd) (w : Nat) {o : Nat} (ho : o < m.allocSize) :
    storeWord data m.ctrl w (m.payload + o) = data (m.payload + o) :=
  storeWord_outside _ _ (h.payload_apart hc hs ho)

/-- A word is covered as a whole or not at all. -/
theorem WellPlaced.covers_word (h : m.WellPlaced regionEnd) {p o : Nat} (hp : p % 4 = 0)
    (ho : o < 4) : m.Covers (p + o) ↔ m.Covers p := by
  have ha := h.aligned
  have hb := h.payload_aligned
  have hn := h.allocSize_spec
  unfold Covers; omega

/-- A reader that sees a size of the same number of blocks finds the payload. -/
theorem WellPlaced.wrapStart_payload (h : m.WellPlaced regionEnd) (hE : regionEnd % 4 = 0)
    (hc : m.ctrl < regionEnd) {size : Nat} (hlt : size + 3 < 2 ^ 32)
    (hsize : allocSizeOf size = m.allocSize) :
    u32 (wrapStart regionEnd m.ctrl size + blockSize) = m.payload := by
  have ha := h.aligned
  have hn := allocSizeOf_of_lt hlt
  have hno := h.no_wrap
  rw [h.payload_eq, wrapStart, blockSize, u32_of_lt (show m.ctrl + 4 < 2 ^ 32 by omega),
    u32_of_lt (show m.ctrl + 4 + size < 2 ^ 32 by omega), payloadPos]
  split_ifs
  · omega
  · rfl
  · exact u32_of_lt (by omega)
  · omega

/-- And it finds the place behind the message. -/
theorem WellPlaced.stepOver_eq (h : m.WellPlaced regionEnd) (hE : regionEnd % 4 = 0)
    (hc : m.ctrl < regionEnd) (hs : (m.segment regionEnd).2 < regionEnd) {size : Nat}
    (hlt : size + 3 < 2 ^ 32) (hsize : allocSizeOf size = m.allocSize) :
    stepOver regionEnd (wrapStart regionEnd m.ctrl size) m.allocSize =
      nextPos regionEnd m.ctrl m.allocSize := by
  have ha := h.aligned
  have hn := allocSizeOf_of_lt hlt
  have hno := h.no_wrap
  simp only [segment, span] at hs
  have hblock : u32 (m.allocSize + 4) = m.allocSize + 4 := u32_of_lt (by omega)
  by_cases hw : regionEnd < m.ctrl + 4 + size
  · have hnext : u32 (2 ^ 32 - 4 + (m.allocSize + 4)) = m.allocSize := by unfold u32; omega
    simp only [stepOver, wrapStart, nextPos, blockSize, hblock,
      u32_of_lt (show m.ctrl + 4 < 2 ^ 32 by omega),
      u32_of_lt (show m.ctrl + 4 + size < 2 ^ 32 by omega), if_pos hw,
      u32_of_lt (show 2 ^ 32 - 4 < 2 ^ 32 by omega), hnext]
    split_ifs at hs ⊢ <;> omega
  · simp only [stepOver, wrapStart, nextPos, blockSize, hblock,
      u32_of_lt (show m.ctrl + 4 < 2 ^ 32 by omega),
      u32_of_lt (show m.ctrl + 4 + size < 2 ^ 32 by omega), if_neg hw,
      u32_of_lt (show m.ctrl + (m.allocSize + 4) < 2 ^ 32 by omega)]
    split_ifs <;> omega

theorem HeadOk.congr (hk : m.HeadOk data) (h : ∀ x, m.Covers x → data' x = data x) :
    m.HeadOk data' := by
  have hw : loadWord data' m.ctrl = loadWord data m.ctrl :=
    loadWord_congr fun o ho => h _ (.inl ⟨by omega, by omega⟩)
  unfold HeadOk at *
  rw [hw]; exact hk

theorem PayloadOk.congr (hk : m.PayloadOk data) (h : ∀ x, m.Covers x → data' x = data x) :
    m.PayloadOk data' := by
  have hp : ∀ o < m.allocSize, data' (m.payload + o) = data (m.payload + o) :=
    fun o ho => h _ (.inr ⟨by omega, by omega⟩)
  unfold PayloadOk at *
  cases hs : m.stage <;> simp only [hs] at hk ⊢
  all_goals intro o ho; rw [hp o ho]; exact hk o ho

/-- A message whose payload is still stored delivers its content. -/
theorem PayloadOk.slice_eq (hk : m.PayloadOk data) (hp : m.WellPlaced regionEnd)
    (hs : m.stage = .committed) : slice data m.payload m.size = m.content := by
  unfold PayloadOk at hk
  simp only [hs] at hk
  have hn := hp.allocSize_spec
  unfold slice content
  exact List.map_congr_left fun o ho => hk o (by have := List.mem_range.mp ho; omega)

end Message

/-! ## The placement rule in ring terms -/

section Place
variable {regionEnd readHand allocHand allocSize : Nat} {x : Nat × Nat}

theorem nextPos_eq_advance (ha : allocHand < regionEnd) :
    nextPos regionEnd allocHand allocSize =
      Ring.advance regionEnd allocHand (span regionEnd allocHand allocSize) := by
  unfold nextPos span Ring.advance; split_ifs <;> omega

theorem nextPos_aligned (haa : allocHand % 4 = 0) (hs : allocSize % 4 = 0) :
    nextPos regionEnd allocHand allocSize % 4 = 0 := by
  unfold nextPos; split_ifs <;> omega

/-- `place` without the wrap of 32-bit sums. -/
theorem place_no_wrap (ha : allocHand < regionEnd) (haa : allocHand % 4 = 0)
    (hE : regionEnd % 4 = 0) (hw : regionEnd + allocSize < 2 ^ 32) :
    u32 (allocHand + messageHeaderSize) = allocHand + 4 ∧
      u32 (allocHand + 4 + allocSize) = allocHand + 4 + allocSize := by
  constructor
  · exact u32_of_lt (by simp only [messageHeaderSize, blockSize]; omega)
  · exact u32_of_lt (by omega)

/-- Whatever read hand is used, a placement is determined by the allocation hand. -/
theorem place_eq (hE : regionEnd % 4 = 0) (hr : readHand < regionEnd)
    (ha : allocHand < regionEnd) (haa : allocHand % 4 = 0)
    (hw : regionEnd + allocSize < 2 ^ 32)
    (h : place regionEnd readHand allocHand allocSize = some x) :
    x = (payloadPos regionEnd allocHand allocSize, nextPos regionEnd allocHand allocSize) := by
  obtain ⟨h4, h8⟩ := place_no_wrap ha haa hE hw
  revert h
  simp only [place, h8, h4, payloadPos, nextPos]
  split_ifs <;> simp only [Option.some.injEq, IsEmpty.forall_iff] <;> rintro rfl <;>
    simp only [Prod.mk.injEq] <;> omega

/-- The check of `place` admits a message exactly if it leaves the ring unfilled. -/
theorem place_isSome_iff (hE : regionEnd % 4 = 0) (hr : readHand < regionEnd)
    (ha : allocHand < regionEnd) (haa : allocHand % 4 = 0)
    (hw : regionEnd + allocSize < 2 ^ 32) :
    (place regionEnd readHand allocHand allocSize).isSome = true ↔
      Ring.dist regionEnd readHand allocHand + span regionEnd allocHand allocSize < regionEnd := by
  obtain ⟨h4, h8⟩ := place_no_wrap ha haa hE hw
  simp only [place, h8, h4, Ring.dist, span]
  split_ifs <;> simp <;> omega

end Place

/-- The region holds exactly the slots of `ms`, oldest first. -/
structure Pool (regionEnd : Nat) (region : Region) (ms : List Message) : Prop where
  read_lt : region.readPtr < regionEnd
  read_aligned : region.readPtr % 4 = 0
  alloc_aligned : region.allocPtr % 4 = 0
  chain : Ring.Chain regionEnd region.readPtr (ms.map (·.segment regionEnd)) region.allocPtr
  room : Ring.used (ms.map (·.segment regionEnd)) < regionEnd
  placed : ∀ m ∈ ms, m.WellPlaced regionEnd
  head : ∀ m ∈ ms, m.HeadOk region.data
  payload : ∀ m ∈ ms, m.PayloadOk region.data
  free : ∀ p < regionEnd, p % 4 = 0 → (∀ m ∈ ms, ¬ m.Covers p) → Locked (loadWord region.data p)

namespace Pool

variable {regionEnd : Nat} (hE : regionEnd % 4 = 0) {region : Region} {ms : List Message}

theorem init (hpos : 0 < regionEnd) : Pool regionEnd .init [] where
  read_lt := hpos
  read_aligned := rfl
  alloc_aligned := rfl
  chain := rfl
  room := hpos
  placed := by simp
  head := by simp
  payload := by simp
  free := fun p _ _ _ => locked_filler p

theorem alloc_lt (h : Pool regionEnd region ms) : region.allocPtr < regionEnd :=
  h.chain.stop_lt h.read_lt h.room

theorem segment_lt (h : Pool regionEnd region ms) {m : Message} (hm : m ∈ ms) :
    m.ctrl < regionEnd ∧ (m.segment regionEnd).2 < regionEnd := by
  have hin : m.segment regionEnd ∈ ms.map (·.segment regionEnd) := List.mem_map_of_mem hm
  refine ⟨h.chain.start_lt h.read_lt h.room hin, ?_⟩
  obtain ⟨as, bs, heq⟩ := List.append_of_mem hin
  have hr := h.room
  rw [heq] at hr
  simp only [Ring.used_append, Ring.used_cons] at hr
  omega

section Geometry
include hE

theorem inside (h : Pool regionEnd region ms) {m : Message} (hm : m ∈ ms) {x : Nat}
    (hx : m.Covers x) : x < regionEnd ∧ Ring.dist regionEnd m.ctrl x < (m.segment regionEnd).2 :=
  (h.placed m hm).inside hE (h.segment_lt hm).1 (h.segment_lt hm).2 hx

/-- Slots of different messages share no byte. -/
theorem disjoint {as bs cs : List Message} {m n : Message}
    (h : Pool regionEnd region (as ++ m :: bs ++ n :: cs)) {x : Nat} (hm : m.Covers x) :
    ¬ n.Covers x := by
  intro hn
  have hmi := h.inside hE (show m ∈ _ by simp) hm
  have hni := h.inside hE (show n ∈ _ by simp) hn
  have hc := h.chain
  have hr := h.room
  simp only [List.map_append, List.map_cons] at hc hr
  exact hc.ne_of_inside h.read_lt hr hmi.1 hni.1 hmi.2 hni.2 rfl

/-- The word at the allocation hand is free. -/
theorem locked_at_alloc (h : Pool regionEnd region ms) :
    Locked (loadWord region.data region.allocPtr) := by
  apply h.free _ h.alloc_lt h.alloc_aligned
  intro m hm hc
  exact h.chain.stop_not_inside h.read_lt h.room (List.mem_map_of_mem hm) (h.inside hE hm hc).2

omit hE in
/-- The position behind `pre` is the header of the next message, or the allocation hand. -/
theorem next_ctrl {pre rest : List Message} {m : Message} {mid : Nat}
    (h : Pool regionEnd region (pre ++ m :: rest))
    (hpre : Ring.Chain regionEnd region.readPtr (pre.map (·.segment regionEnd)) mid) :
    mid = m.ctrl := by
  have hc := h.chain
  rw [List.map_append] at hc
  obtain ⟨mid', h1, h2⟩ := hc.split
  rw [hpre.stop_unique h1]
  exact h2.1.symm

/-- Changing one message, and memory only inside of its slot. -/
theorem update {as bs : List Message} {m m' : Message} {data' : Nat → UInt8}
    (h : Pool regionEnd region (as ++ m :: bs))
    (hctrl : m'.ctrl = m.ctrl) (hpay : m'.payload = m.payload) (hsize : m'.size = m.size)
    (hframe : ∀ x, ¬ m.Covers x → data' x = region.data x)
    (hhead : m'.HeadOk data') (hpayload : m'.PayloadOk data') :
    Pool regionEnd { region with data := data' } (as ++ m' :: bs) := by
  have hseg : m'.segment regionEnd = m.segment regionEnd := by
    simp [Message.segment, Message.allocSize, hctrl, hsize]
  have hmap : (as ++ m' :: bs).map (·.segment regionEnd) =
      (as ++ m :: bs).map (·.segment regionEnd) := by simp [hseg]
  have hcov : ∀ x, m'.Covers x ↔ m.Covers x := by
    simp [Message.Covers, Message.allocSize, hctrl, hpay, hsize]
  have hother : ∀ n ∈ as ++ bs, ∀ x, n.Covers x → data' x = region.data x := by
    intro n hn x hx
    apply hframe
    intro hm
    rcases List.mem_append.mp hn with hn | hn
    · obtain ⟨as₁, as₂, rfl⟩ := List.append_of_mem hn
      have hp : Pool regionEnd region (as₁ ++ n :: as₂ ++ m :: bs) := by simpa using h
      exact hp.disjoint hE hx hm
    · obtain ⟨bs₁, bs₂, rfl⟩ := List.append_of_mem hn
      have hp : Pool regionEnd region (as ++ m :: bs₁ ++ n :: bs₂) := by simpa using h
      exact hp.disjoint hE hm hx
  have hmem : ∀ n ∈ as ++ m' :: bs, n = m' ∨ n ∈ as ++ bs := by
    intro n hn; simp only [List.mem_append, List.mem_cons] at hn ⊢; tauto
  have hold : ∀ n ∈ as ++ bs, n ∈ as ++ m :: bs := by
    intro n hn; simp only [List.mem_append, List.mem_cons] at hn ⊢; tauto
  refine ⟨h.read_lt, h.read_aligned, h.alloc_aligned, hmap ▸ h.chain, hmap ▸ h.room, ?_, ?_, ?_,
    ?_⟩
  · intro n hn
    rcases hmem n hn with rfl | hn
    · have hm := h.placed m (by simp)
      exact ⟨hsize ▸ hm.size_le, by simpa [Message.allocSize, hsize] using hm.no_wrap,
        hctrl ▸ hm.aligned, by simpa [Message.allocSize, hsize, hpay, hctrl] using hm.payload_eq⟩
    · exact h.placed n (hold n hn)
  · intro n hn
    rcases hmem n hn with rfl | hn
    · exact hhead
    · exact (h.head n (hold n hn)).congr (hother n hn)
  · intro n hn
    rcases hmem n hn with rfl | hn
    · exact hpayload
    · exact (h.payload n (hold n hn)).congr (hother n hn)
  · intro p hp ha hfree
    have hm : ¬ m.Covers p := fun hc => hfree m' (by simp) ((hcov p).mpr hc)
    have hw : loadWord data' p = loadWord region.data p := by
      refine loadWord_congr fun o ho => hframe _ ?_
      rwa [(h.placed m (by simp)).covers_word ha ho]
    rw [hw]
    apply h.free p hp ha
    intro n hn
    simp only [List.mem_append, List.mem_cons] at hn
    rcases hn with hn | rfl | hn
    · exact hfree n (by simp [hn])
    · exact hm
    · exact hfree n (by simp [hn])

end Geometry

theorem dist_alloc (h : Pool regionEnd region ms) :
    Ring.dist regionEnd region.readPtr region.allocPtr =
      Ring.used (ms.map (·.segment regionEnd)) := by
  rw [h.chain.stop_eq h.read_lt h.room.le, Ring.dist_advance h.read_lt h.room]

include hE in
/-- A slot reserved at the allocation hand, where the check with the current read hand has
room for it. -/
theorem reserve {m : Message} (h : Pool regionEnd region ms)
    (hm : m.WellPlaced regionEnd) (hctrl : m.ctrl = region.allocPtr) (hst : m.stage = .reserved)
    (hbytes : ∀ o < m.allocSize, region.data (m.payload + o) = m.bytes o)
    (hroom : (place regionEnd region.readPtr region.allocPtr m.allocSize).isSome = true) :
    Pool regionEnd
      { region with allocPtr := nextPos regionEnd region.allocPtr m.allocSize } (ms ++ [m]) := by
  have hn := hm.allocSize_spec
  rw [place_isSome_iff hE h.read_lt h.alloc_lt h.alloc_aligned hm.no_wrap, h.dist_alloc] at hroom
  have hseg : m.segment regionEnd = (region.allocPtr, span regionEnd region.allocPtr m.allocSize) :=
    by simp [Message.segment, hctrl]
  have hpos : 0 < span regionEnd region.allocPtr m.allocSize := by
    have := h.alloc_lt; unfold span; split_ifs <;> omega
  refine ⟨h.read_lt, h.read_aligned, nextPos_aligned h.alloc_aligned hn.2.2, ?_, ?_, ?_, ?_, ?_,
    ?_⟩
  · rw [List.map_append]
    refine h.chain.append ⟨by simp [hseg], by simpa [hseg] using hpos, ?_⟩
    simp [hseg, Ring.Chain, nextPos_eq_advance h.alloc_lt]
  · simpa [hseg] using hroom
  · intro n hn'
    rcases List.mem_append.mp hn' with hn' | hn'
    · exact h.placed n hn'
    · rw [List.mem_singleton.mp hn']; exact hm
  · intro n hn'
    rcases List.mem_append.mp hn' with hn' | hn'
    · exact h.head n hn'
    · rw [List.mem_singleton.mp hn']
      simpa [Message.HeadOk, hst, hctrl] using h.locked_at_alloc hE
  · intro n hn'
    rcases List.mem_append.mp hn' with hn' | hn'
    · exact h.payload n hn'
    · rw [List.mem_singleton.mp hn']
      simpa [Message.PayloadOk, hst] using hbytes
  · intro p hp ha hfree
    exact h.free p hp ha fun n hn' => hfree n (by simp [hn'])

/-- The read hand moves behind messages that have been cleared. -/
theorem release {done rest : List Message} {mid : Nat}
    (h : Pool regionEnd region (done ++ rest))
    (hmid : Ring.Chain regionEnd region.readPtr (done.map (·.segment regionEnd)) mid)
    (ha : mid % 4 = 0) (hdone : ∀ m ∈ done, m.stage = .cleared) :
    Pool regionEnd { region with readPtr := mid } rest := by
  have hc := h.chain
  have hr := h.room
  simp only [List.map_append, Ring.used_append] at hc hr
  obtain ⟨mid', h1, h2⟩ := hc.split
  obtain rfl := hmid.stop_unique h1
  have hmem : ∀ n ∈ rest, n ∈ done ++ rest := fun n hn => by simp [hn]
  refine ⟨hmid.stop_lt h.read_lt (by omega), ha, h.alloc_aligned, h2, by omega,
    fun n hn => h.placed n (hmem n hn), fun n hn => h.head n (hmem n hn),
    fun n hn => h.payload n (hmem n hn), ?_⟩
  intro p hp hpa hfree
  by_cases hcov : ∃ m ∈ done, m.Covers p
  · obtain ⟨m, hm, hx⟩ := hcov
    have hst := hdone m hm
    have hpl := h.placed m (by simp [hm])
    rcases hx with hx | hx
    · have hhead := h.head m (by simp [hm])
      obtain rfl : p = m.ctrl := by have := hpl.aligned; omega
      simp only [Message.HeadOk, hst] at hhead
      rw [hhead]; exact locked_consumedHead _
    · have hpay := h.payload m (by simp [hm])
      simp only [Message.PayloadOk, hst] at hpay
      have hn := hpl.allocSize_spec
      have hpm := hpl.payload_aligned
      have hw : loadWord region.data p = loadWord (fun _ => 0xfe) p := by
        refine loadWord_congr fun o ho => ?_
        have := hpay (p - m.payload + o) (by omega)
        rwa [show m.payload + (p - m.payload + o) = p + o by omega] at this
      rw [hw]; exact locked_filler p
  · apply h.free p hp hpa
    intro n hn
    rcases List.mem_append.mp hn with hn | hn
    · exact fun hx => hcov ⟨n, hn, hx⟩
    · exact hfree n hn

end Pool

end Deeplog.Mpsc

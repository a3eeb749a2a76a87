import Mathlib.Data.List.TakeWhile
import Deeplog.Lib.Cbor
import Deeplog.Mpsc.Hands

/-!
# Crash recovery of a region

`recover_region` walks the slots behind the read hand by the sizes in their header words and
passes on what is committed, in batches. It knows the slot of a message whose header was never
stored only by the word that an earlier lap left there: such a word can stop the walk, lead it
on to the next slot by chance, or lead it astray.
-/

namespace Deeplog.Mpsc

/-- `~message_flag_mask` -/
def messageSizeMask : Nat := 2 ^ 32 - 1 - messageFlagMask

section Code

variable (skipItem : Bytes → Bool) (regionEnd : Nat)

/-- One pass of the inner loop of `recover_region`: the next position and the batch, or `none`
where it returns. -/
def recoverStep (data : Nat → UInt8) (readPos : Nat) (msgs : List Bytes) :
    Option (Nat × List Bytes) :=
  let msgHead := loadWord data readPos
  let msgSize := msgHead &&& messageSizeMask
  if regionEnd < u32 (blockSize + msgSize) then none
  else
    let start := wrapStart regionEnd readPos msgSize
    let allocSize := roundUpP2 msgSize blockSize
    let msg := slice data (u32 (start + blockSize)) msgSize
    some (stepOver regionEnd start allocSize,
      if msgHead &&& messageFlagMask = 0 ∧ skipItem msg = true then msgs ++ [msg] else msgs)

/-- The inner loop, with `left` passes left before the limit: what is left then, the position
and the batch. -/
def recoverBatch (region : Region) : Nat → Nat → List Bytes → Option (Nat × Nat × List Bytes)
  | 0, readPos, msgs => some (0, readPos, msgs)
  | left + 1, readPos, msgs =>
    if msgs.length < consumeBatchSize ∧ readPos ≠ region.allocPtr then
      match recoverStep skipItem regionEnd region.data readPos msgs with
      | none => none
      | some (readPos, msgs) => recoverBatch region left readPos msgs
    else some (left + 1, readPos, msgs)

/-- The outer loop: the batches given to `consume`. -/
def recoverLoop (region : Region) : Nat → Nat → Nat → List (List Bytes)
  | 0, _, _ => []
  | fuel + 1, left, readPos =>
    if left ≠ 0 ∧ readPos ≠ region.allocPtr then
      match recoverBatch skipItem regionEnd region left readPos [] with
      | none => []
      | some (left, readPos, msgs) => msgs :: recoverLoop region fuel left readPos
    else []

/-- `recover_region`; every pass of the outer loop takes one of the passes that are left. -/
def recoverRegion (region : Region) : List (List Bytes) :=
  let limit := regionEnd / 4
  recoverLoop skipItem regionEnd region (limit + 1) limit region.readPtr

/-- What the outer loop makes of the outcome of a batch. -/
def recoverRest (region : Region) (fuel : Nat) :
    Option (Nat × Nat × List Bytes) → List (List Bytes)
  | none => []
  | some (left, readPos, msgs) => msgs :: recoverLoop skipItem regionEnd region fuel left readPos

theorem recoverLoop_succ (region : Region) {fuel left readPos : Nat} (hl : left ≠ 0)
    (hp : readPos ≠ region.allocPtr) :
    recoverLoop skipItem regionEnd region (fuel + 1) left readPos =
      recoverRest skipItem regionEnd region fuel
        (recoverBatch skipItem regionEnd region left readPos []) := by
  rw [recoverLoop, if_pos ⟨hl, hp⟩]
  rfl

end Code

/-! ## What the walk sees of a slot -/

namespace Message

/-- The header word shows a size that leads the walk to the next slot. -/
def Passes (regionEnd : Nat) (data : Nat → UInt8) (m : Message) : Prop :=
  4 + (loadWord data m.ctrl &&& messageSizeMask) ≤ regionEnd ∧
    allocSizeOf (loadWord data m.ctrl &&& messageSizeMask) = m.allocSize

/-- The header word shows a size that no message can have; `unused_block_content` does. -/
def Halts (regionEnd : Nat) (data : Nat → UInt8) (m : Message) : Prop :=
  regionEnd < 4 + (loadWord data m.ctrl &&& messageSizeMask)

instance (regionEnd : Nat) (data : Nat → UInt8) (m : Message) :
    Decidable (m.Passes regionEnd data) := inferInstanceAs (Decidable (_ ∧ _))

instance (regionEnd : Nat) (data : Nat → UInt8) (m : Message) :
    Decidable (m.Halts regionEnd data) := inferInstanceAs (Decidable (_ < _))

/-- A message that recovery passes on: committed, and its payload begins with an item. -/
def Recoverable (skipItem : Bytes → Bool) (m : Message) : Prop :=
  m.stage = .committed ∧ skipItem m.content = true

instance (skipItem : Bytes → Bool) (m : Message) : Decidable (m.Recoverable skipItem) :=
  inferInstanceAs (Decidable (_ ∧ _))

end Message

/-- The contents that recovery passes on of the given slots. -/
def found (skipItem : Bytes → Bool) (ms : List Message) : List Bytes :=
  (ms.filter fun m => m.Recoverable skipItem).map Message.content

theorem testBit_flagMask (i : Nat) :
    messageFlagMask.testBit i = (decide (i = 31) || decide (i = 30)) := by
  rw [messageFlagMask, Nat.testBit_or, testBit_lockFlag, testBit_consumedFlag]

theorem and_sizeMask_lt (w : Nat) : w &&& messageSizeMask < 2 ^ 30 :=
  Nat.lt_of_le_of_lt Nat.and_le_right (by decide)

theorem Locked.flagged {w : Nat} (h : Locked w) : w &&& messageFlagMask ≠ 0 := by
  rw [locked_iff_testBit] at h
  intro hzero
  have hbit : (w &&& messageFlagMask).testBit 31 = true := by
    rw [Nat.testBit_and, testBit_flagMask, h]; rfl
  rw [hzero] at hbit
  simp at hbit

section Sizes

variable {n : Nat} (h : n ≤ maxMessageSize)
include h

theorem size_not_flagged : n &&& messageFlagMask = 0 := by
  apply Nat.eq_of_testBit_eq
  intro i
  rw [Nat.testBit_and, testBit_flagMask, Nat.zero_testBit]
  by_cases hi : i < 29
  · simp [show i ≠ 31 by omega, show i ≠ 30 by omega]
  · simp [testBit_size h (show 29 ≤ i by omega)]

theorem testBit_sizeMask_of_size {i : Nat} (hi : n.testBit i = true) :
    messageSizeMask.testBit i = true := by
  have hlt : i < 29 := by
    by_contra hge
    simp [testBit_size h (show 29 ≤ i by omega)] at hi
  rw [show messageSizeMask = 2 ^ 30 - 1 from rfl, Nat.testBit_two_pow_sub_one]
  simp; omega

/-- The flags of a header do not touch its size. -/
theorem or_flags_and_sizeMask {flags : Nat} (hf : flags &&& messageSizeMask = 0) :
    (n ||| flags) &&& messageSizeMask = n := by
  rw [Nat.and_or_distrib_right, hf, Nat.or_zero]
  apply Nat.eq_of_testBit_eq
  intro i
  rw [Nat.testBit_and]
  cases hi : n.testBit i
  · simp
  · rw [testBit_sizeMask_of_size h hi]; rfl

theorem lockedHead_and_sizeMask : lockedHead n &&& messageSizeMask = n :=
  or_flags_and_sizeMask h (by decide)

theorem consumedHead_and_sizeMask : consumedHead n &&& messageSizeMask = n :=
  or_flags_and_sizeMask h (by decide)

theorem size_and_sizeMask : n &&& messageSizeMask = n := by
  have hor := or_flags_and_sizeMask h (Nat.zero_and messageSizeMask)
  rwa [Nat.or_zero] at hor

end Sizes

/-! ## The walk over slots -/

section Walk

variable {skipItem : Bytes → Bool} {regionEnd : Nat} {region : Region}

/-- Only a committed message has a header without flags. -/
theorem Message.WellPlaced.not_flagged_iff {m : Message} (hp : m.WellPlaced regionEnd)
    (hh : m.HeadOk region.data) :
    loadWord region.data m.ctrl &&& messageFlagMask = 0 ↔ m.stage = .committed := by
  unfold Message.HeadOk at hh
  cases hs : m.stage <;> simp only [hs] at hh
  case reserved => simpa using hh.flagged
  case headed => simpa [hh] using (locked_lockedHead m.size).flagged
  case committed => simpa [hh] using size_not_flagged hp.size_le
  case consumed => simpa [hh] using (locked_consumedHead m.size).flagged
  case cleared => simpa [hh] using (locked_consumedHead m.size).flagged

/-- A header that has been stored shows the size of its message. -/
theorem Message.WellPlaced.shown_size {m : Message} (hp : m.WellPlaced regionEnd)
    (hh : m.HeadOk region.data) (hs : m.stage ≠ .reserved) :
    loadWord region.data m.ctrl &&& messageSizeMask = m.size := by
  unfold Message.HeadOk at hh
  cases hst : m.stage <;> simp only [hst] at hh hs
  case reserved => exact absurd rfl hs
  case headed => rw [hh]; exact lockedHead_and_sizeMask hp.size_le
  case committed => rw [hh]; exact size_and_sizeMask hp.size_le
  case consumed => rw [hh]; exact consumedHead_and_sizeMask hp.size_le
  case cleared => rw [hh]; exact consumedHead_and_sizeMask hp.size_le

variable {ms : List Message} (h : Pool regionEnd region ms)
include h

/-- Every slot but one without header passes. -/
theorem Pool.passes (hE : regionEnd % 4 = 0) {m : Message} (hm : m ∈ ms)
    (hs : m.stage ≠ .reserved) : m.Passes regionEnd region.data := by
  have hpl := h.placed m hm
  have ha := hpl.aligned
  have hin := h.segment_lt hm
  have hn := hpl.allocSize_spec
  rw [Message.Passes, hpl.shown_size (h.head m hm) hs]
  refine ⟨?_, rfl⟩
  have hseg := hin.2
  simp only [Message.segment, span] at hseg
  split_ifs at hseg <;> omega

omit h in
theorem recoverStep_halts {m : Message} (hm : m.Halts regionEnd region.data)
    (msgs : List Bytes) : recoverStep skipItem regionEnd region.data m.ctrl msgs = none := by
  have hlt := and_sizeMask_lt (loadWord region.data m.ctrl)
  have hbad : regionEnd < u32 (blockSize + (loadWord region.data m.ctrl &&& messageSizeMask)) := by
    rw [blockSize, u32_of_lt (by omega)]; exact hm
  simp only [recoverStep, if_pos hbad]

theorem Pool.recoverStep_passes (hE : regionEnd % 4 = 0) {m : Message} (hm : m ∈ ms)
    (hpass : m.Passes regionEnd region.data) (msgs : List Bytes) :
    recoverStep skipItem regionEnd region.data m.ctrl msgs =
      some (nextPos regionEnd m.ctrl m.allocSize, msgs ++ found skipItem [m]) := by
  have hpl := h.placed m hm
  have hin := h.segment_lt hm
  have hhead := h.head m hm
  have hlt := and_sizeMask_lt (loadWord region.data m.ctrl)
  have hok : ¬ regionEnd < u32 (blockSize + (loadWord region.data m.ctrl &&& messageSizeMask)) := by
    rw [blockSize, u32_of_lt (by omega)]; exact not_lt_of_ge hpass.1
  have halloc : roundUpP2 (loadWord region.data m.ctrl &&& messageSizeMask) blockSize =
      m.allocSize := hpass.2
  simp only [recoverStep, if_neg hok, halloc, hpl.wrapStart_payload hE hin.1 (by omega) hpass.2,
    hpl.stepOver_eq hE hin.1 hin.2 (by omega) hpass.2, hpl.not_flagged_iff hhead]
  congr 2
  by_cases hs : m.stage = .committed
  · have hslice := (h.payload m hm).slice_eq hpl hs
    rw [hpl.shown_size hhead (by rw [hs]; decide), hslice]
    by_cases hskip : skipItem m.content = true <;>
      simp [found, Message.Recoverable, hs, hskip]
  · simp [found, Message.Recoverable, hs]

theorem Pool.ctrl_ne_alloc {m : Message} (hm : m ∈ ms) : m.ctrl ≠ region.allocPtr := by
  have hin := h.segment_lt hm
  have hnot := h.chain.stop_not_inside h.read_lt h.room (List.mem_map_of_mem hm)
  intro heq
  apply hnot
  simp only [Message.segment, ← heq, Ring.dist_self, span]
  split_ifs <;> omega

/-- The walk finds its way through any number of slots: four bytes belong to each. -/
theorem Pool.length_le (hE : regionEnd % 4 = 0) : ms.length ≤ regionEnd / 4 := by
  have hlen : ∀ ns : List Message, (∀ m ∈ ns, m ∈ ms) →
      4 * ns.length ≤ Ring.used (ns.map (·.segment regionEnd)) := by
    intro ns hns
    induction ns with
    | nil => simp
    | cons m ns ih =>
      have hrest := ih fun n hn => hns n (by simp [hn])
      have hin := h.segment_lt (hns m (by simp))
      have hpl := h.placed m (hns m (by simp))
      have hsp : 4 ≤ (m.segment regionEnd).2 := by
        have ha := hpl.aligned
        simp only [Message.segment, span]
        split_ifs <;> omega
      simp only [List.length_cons, List.map_cons, Ring.used_cons]
      omega
  have hms := hlen ms fun _ hm => hm
  have hroom := h.room
  omega

/-- A pass of the inner loop over a slot that leads on. -/
theorem Pool.recoverBatch_passes (hE : regionEnd % 4 = 0) {m : Message} (hm : m ∈ ms)
    (hpass : m.Passes regionEnd region.data) {msgs : List Bytes}
    (hlen : msgs.length < consumeBatchSize) (left : Nat) :
    recoverBatch skipItem regionEnd region (left + 1) m.ctrl msgs =
      recoverBatch skipItem regionEnd region left (nextPos regionEnd m.ctrl m.allocSize)
        (msgs ++ found skipItem [m]) := by
  simp only [recoverBatch, if_pos (And.intro hlen (h.ctrl_ne_alloc hm)),
    h.recoverStep_passes hE hm hpass]

/-- The inner loop ends with a full batch, and the outer loop starts the next one. -/
theorem Pool.recoverRest_full {m : Message} (hm : m ∈ ms) {msgs : List Bytes}
    (hlen : ¬ msgs.length < consumeBatchSize) {left fuel : Nat} :
    recoverRest skipItem regionEnd region (fuel + 1)
        (recoverBatch skipItem regionEnd region (left + 1) m.ctrl msgs) =
      msgs :: recoverRest skipItem regionEnd region fuel
        (recoverBatch skipItem regionEnd region (left + 1) m.ctrl []) := by
  have hend : recoverBatch skipItem regionEnd region (left + 1) m.ctrl msgs =
      some (left + 1, m.ctrl, msgs) := by
    rw [recoverBatch, if_neg fun hc => hlen hc.1]
  rw [hend, recoverRest,
    recoverLoop_succ skipItem regionEnd region (Nat.succ_ne_zero left) (h.ctrl_ne_alloc hm)]

omit h in
@[simp] theorem found_append (as bs : List Message) :
    found skipItem (as ++ bs) = found skipItem as ++ found skipItem bs := by
  simp [found]

omit h in
theorem found_singleton_le (skipItem : Bytes → Bool) (m : Message) :
    (found skipItem [m]).length ≤ 1 := by
  simp only [found, List.length_map]
  exact List.length_filter_le _ [m]

end Walk

/-- The state of a walk over slots that all lead on: what has gone out in full batches, and the
batch that is being filled. -/
structure Walked (skipItem : Bytes → Bool) (regionEnd : Nat) (region : Region)
    (pre ps : List Message) (msgs : List Bytes) (out : List (List Bytes)) (left : Nat)
    (flushed msgs' : List Bytes) (fuel' pos' : Nat) : Prop where
  out_eq : out.flatten = flushed ++ (recoverRest skipItem regionEnd region fuel'
    (recoverBatch skipItem regionEnd region (left - ps.length) pos' msgs')).flatten
  found_eq : flushed ++ msgs' = msgs ++ found skipItem ps
  full : flushed.length % consumeBatchSize = 0
  batch_le : msgs'.length ≤ consumeBatchSize
  fuel_le : left - ps.length ≤ fuel'
  behind : Behind regionEnd region.readPtr (pre ++ ps) pos'

/-- Adding the slot that was passed before. -/
theorem Walked.cons {skipItem : Bytes → Bool} {regionEnd : Nat} {region : Region}
    {pre ps : List Message} {m : Message} {msgs msgs₀ msgs' flushed : List Bytes}
    {out out₀ : List (List Bytes)} {left fuel' pos' : Nat}
    (h : Walked skipItem regionEnd region (pre ++ [m]) ps (msgs ++ found skipItem [m]) out left
      flushed msgs' fuel' pos')
    (hout : out₀.flatten = msgs₀ ++ out.flatten) (hfull : msgs₀.length % consumeBatchSize = 0) :
    Walked skipItem regionEnd region pre (m :: ps) (msgs₀ ++ msgs) out₀ (left + 1)
      (msgs₀ ++ flushed) msgs' fuel' pos' where
  out_eq := by
    rw [hout, h.out_eq, List.length_cons, Nat.add_sub_add_right, List.append_assoc]
  found_eq := by
    have hcons : found skipItem (m :: ps) = found skipItem [m] ++ found skipItem ps :=
      found_append [m] ps
    rw [List.append_assoc, h.found_eq, hcons]
    simp
  full := by rw [List.length_append, Nat.add_mod, hfull, h.full]; rfl
  batch_le := h.batch_le
  fuel_le := by rw [List.length_cons, Nat.add_sub_add_right]; exact h.fuel_le
  behind := by simpa using h.behind

theorem Pool.walk {skipItem : Bytes → Bool} {regionEnd : Nat} (hE : regionEnd % 4 = 0)
    {region : Region} {ps : List Message} (pre : List Message) {tail : List Message}
    (h : Pool regionEnd region (pre ++ ps ++ tail)) {pos left fuel : Nat} {msgs : List Bytes}
    (hpos : Behind regionEnd region.readPtr pre pos)
    (hpass : ∀ m ∈ ps, m.Passes regionEnd region.data) (hleft : ps.length ≤ left)
    (hfuel : left ≤ fuel) (hmsgs : msgs.length ≤ consumeBatchSize) :
    ∃ flushed msgs' fuel' pos', Walked skipItem regionEnd region pre ps msgs
      (recoverRest skipItem regionEnd region fuel
        (recoverBatch skipItem regionEnd region left pos msgs)) left flushed msgs' fuel' pos' := by
  induction ps generalizing pre left fuel pos msgs with
  | nil => exact ⟨[], msgs, fuel, pos, by simp, by simp [found], rfl, hmsgs, by simpa, by simpa⟩
  | cons m ps ih =>
    have hm : m ∈ pre ++ m :: ps ++ tail := by simp
    have hpool : Pool regionEnd region (pre ++ m :: (ps ++ tail)) := by simpa using h
    have hpool' : Pool regionEnd region (pre ++ [m] ++ ps ++ tail) := by simpa using h
    obtain rfl := hpool.next_ctrl hpos
    have hnext := h.behind_next hm hpos
    have hps : ∀ n ∈ ps, n.Passes regionEnd region.data := fun n hn => hpass n (by simp [hn])
    have hone := found_singleton_le skipItem m
    cases left with
    | zero => simp at hleft
    | succ left =>
      have hleft' : ps.length ≤ left := by simpa using hleft
      by_cases hlen : msgs.length < consumeBatchSize
      · have hroom : (msgs ++ found skipItem [m]).length ≤ consumeBatchSize := by
          simp only [List.length_append]; omega
        obtain ⟨flushed, msgs', fuel', pos', hw⟩ :=
          ih (pre ++ [m]) hpool' hnext hps hleft' (Nat.le_of_succ_le hfuel) hroom
        rw [h.recoverBatch_passes hE hm (hpass m (by simp)) hlen]
        exact ⟨flushed, msgs', fuel', pos', hw.cons (List.nil_append _).symm rfl⟩
      · -- the batch is full: it goes out, and the slot begins the next one
        cases fuel with
        | zero => simp at hfuel
        | succ fuel =>
          have hroom : ([] ++ found skipItem [m]).length ≤ consumeBatchSize := by
            simp only [List.nil_append]; exact hone.trans (by decide)
          obtain ⟨flushed, msgs', fuel', pos', hw⟩ :=
            ih (pre ++ [m]) hpool' hnext hps hleft' (Nat.le_of_succ_le_succ hfuel) hroom
          rw [h.recoverRest_full hm hlen,
            h.recoverBatch_passes hE hm (hpass m (by simp)) (by decide)]
          have hfull : msgs.length = consumeBatchSize := by omega
          refine ⟨msgs ++ flushed, msgs', fuel', pos', ?_⟩
          have hcons := hw.cons (List.flatten_cons (l := msgs)) (by rw [hfull]; rfl)
          simpa using hcons

/-! ## What recovery passes on -/

/-- What of `xs` goes out in full batches. -/
def fullBatches (xs : List Bytes) : List Bytes :=
  xs.take (consumeBatchSize * (xs.length / consumeBatchSize))

theorem fullBatches_append {flushed msgs : List Bytes}
    (hf : flushed.length % consumeBatchSize = 0) (hm : msgs.length ≤ consumeBatchSize) :
    fullBatches (flushed ++ msgs) =
      flushed ++ if msgs.length < consumeBatchSize then [] else msgs := by
  unfold consumeBatchSize at *
  rw [fullBatches, consumeBatchSize]
  split_ifs with hlt
  · rw [List.append_nil]
    exact List.take_left' (by rw [List.length_append]; omega)
  · exact List.take_of_length_le (by rw [List.length_append]; omega)

section Outcome

variable (skipItem : Bytes → Bool) {regionEnd : Nat} (hE : regionEnd % 4 = 0) {region : Region}
  {ps tail : List Message} (hpass : ∀ m ∈ ps, m.Passes regionEnd region.data)
include hE hpass

theorem Pool.recoverRegion_walk (h : Pool regionEnd region (ps ++ tail)) (hne : ps ++ tail ≠ []) :
    ∃ flushed msgs' fuel' pos', Walked skipItem regionEnd region [] ps []
      (recoverRegion skipItem regionEnd region) (regionEnd / 4) flushed msgs' fuel' pos' := by
  obtain ⟨m, ms, hms⟩ := List.exists_cons_of_ne_nil hne
  have hlen := h.length_le hE
  have hlimit : regionEnd / 4 ≠ 0 := by rw [hms, List.length_cons] at hlen; omega
  have hpool : Pool regionEnd region ([] ++ m :: ms) := hms ▸ h
  have hread : region.readPtr ≠ region.allocPtr := by
    rw [hpool.next_ctrl rfl]; exact hpool.ctrl_ne_alloc (by simp)
  rw [recoverRegion, recoverLoop_succ skipItem regionEnd region hlimit hread]
  rw [List.length_append] at hlen
  exact Pool.walk hE [] h rfl hpass (by omega) le_rfl (by decide)

/-- Where every slot leads on, everything is found. -/
theorem Pool.recoverRegion_all (h : Pool regionEnd region ps) :
    (recoverRegion skipItem regionEnd region).flatten = found skipItem ps := by
  by_cases hne : ps = []
  · subst hne
    have hread : region.readPtr = region.allocPtr := h.chain
    simp [recoverRegion, recoverLoop, hread, found]
  · have hpool : Pool regionEnd region (ps ++ []) := by simpa using h
    obtain ⟨flushed, msgs, fuel, pos, hw⟩ :=
      hpool.recoverRegion_walk skipItem hE hpass (by simpa using hne)
    obtain rfl := hw.behind.stop_unique h.chain
    have hend : recoverRest skipItem regionEnd region fuel
        (recoverBatch skipItem regionEnd region (regionEnd / 4 - ps.length) region.allocPtr msgs) =
          [msgs] := by
      cases regionEnd / 4 - ps.length <;> cases fuel <;>
        simp [recoverBatch, recoverRest, recoverLoop]
    rw [hw.out_eq, hend, ← List.nil_append (found skipItem ps), ← hw.found_eq]
    simp

variable {m : Message} (h : Pool regionEnd region (ps ++ m :: tail))
include h

/-- What has gone out before a slot that does not lead on. -/
theorem Pool.recoverRegion_until :
    ∃ more, (recoverRegion skipItem regionEnd region).flatten =
      fullBatches (found skipItem ps) ++ more ∧
      (m.Halts regionEnd region.data → more = []) := by
  have hm : m ∈ ps ++ m :: tail := by simp
  obtain ⟨flushed, msgs, fuel, pos, hw⟩ := h.recoverRegion_walk skipItem hE hpass (by simp)
  obtain rfl := h.next_ctrl hw.behind
  have hlen := h.length_le hE
  rw [List.length_append, List.length_cons] at hlen
  obtain ⟨left, hleft⟩ : ∃ l, regionEnd / 4 - ps.length = l + 1 :=
    ⟨regionEnd / 4 - ps.length - 1, by omega⟩
  have hfound : found skipItem ps = flushed ++ msgs := by rw [hw.found_eq, List.nil_append]
  have hfuel := hw.fuel_le
  rw [hw.out_eq, hfound, fullBatches_append hw.full hw.batch_le, hleft]
  by_cases hroom : msgs.length < consumeBatchSize
  · rw [if_pos hroom, List.append_nil]
    refine ⟨_, rfl, fun hhalt => ?_⟩
    simp only [recoverBatch, if_pos (And.intro hroom (h.ctrl_ne_alloc hm)), recoverStep_halts hhalt,
      recoverRest, List.flatten_nil]
  · obtain ⟨fuel, rfl⟩ : ∃ f, fuel = f + 1 := ⟨fuel - 1, by omega⟩
    rw [h.recoverRest_full hm hroom, if_neg hroom, List.flatten_cons]
    refine ⟨_, (List.append_assoc ..).symm, fun hhalt => ?_⟩
    have hempty : ([] : List Bytes).length < consumeBatchSize := by decide
    simp only [recoverBatch, if_pos (And.intro hempty (h.ctrl_ne_alloc hm)),
      recoverStep_halts hhalt, recoverRest, List.flatten_nil]

end Outcome

/-! ## Soundness and completeness -/

section Reachable

variable {regionEnd : Nat} {b : Bus}

namespace Bus

/-- The pending slots up to which the walk finds its way. -/
def walked (regionEnd : Nat) (b : Bus) : List Message :=
  b.pending.takeWhile fun m => m.Passes regionEnd b.region.data

/-- The pending slots in front of the first one without header. -/
def headed (b : Bus) : List Message := b.pending.takeWhile fun m => m.stage ≠ .reserved

/-- The first slot whose header does not lead to the next one stops the walk. -/
def WalkStops (regionEnd : Nat) (b : Bus) : Prop :=
  ∀ m ∈ (b.pending.dropWhile fun m => m.Passes regionEnd b.region.data).head?,
    m.Halts regionEnd b.region.data

instance (regionEnd : Nat) (b : Bus) : Decidable (b.WalkStops regionEnd) :=
  inferInstanceAs (Decidable (∀ m ∈ (_ : Option Message), _))

/-- The walk finds its way through all slots, or what is found in front of the first slot
without header fits into the batches that are full when the walk loses its way. -/
def BatchesReach (skipItem : Bytes → Bool) (regionEnd : Nat) (b : Bus) : Prop :=
  (b.pending.dropWhile fun m => m.Passes regionEnd b.region.data) = [] ∨
    (found skipItem b.headed).length ≤
      consumeBatchSize * ((found skipItem (b.walked regionEnd)).length / consumeBatchSize)

/-- The contents of the messages that are committed and not marked consumed. -/
def committed (b : Bus) : List Bytes :=
  (b.messages.filter fun m => m.stage = .committed).map Message.content

end Bus

theorem takeWhile_prefix_of_imp {α : Type} {p q : α → Bool} {l : List α}
    (h : ∀ x ∈ l, p x = true → q x = true) : l.takeWhile p <+: l.takeWhile q := by
  induction l with
  | nil => exact List.prefix_rfl
  | cons x l ih =>
    have hx := h x (by simp)
    have hl := ih fun y hy => h y (by simp [hy])
    cases hp : p x
    · simp [hp]
    · simpa [hp, hx hp] using hl

theorem found_sublist (skipItem : Bytes → Bool) {ms ns : List Message} (h : ms.Sublist ns) :
    (found skipItem ms).Sublist
      ((ns.filter fun m => m.stage = .committed).map Message.content) := by
  refine List.Sublist.map _ (List.Sublist.trans ?_ (h.filter _))
  refine List.monotone_filter_right _ fun m hm => ?_
  simp only [decide_eq_true_eq] at hm ⊢
  exact hm.1

theorem found_prefix (skipItem : Bytes → Bool) {ms ns : List Message} (h : ms <+: ns) :
    found skipItem ms <+: found skipItem ns := by
  obtain ⟨more, rfl⟩ := h
  exact ⟨found skipItem more, by rw [found_append]⟩

theorem Bus.Ok.committed_eq (h : b.Ok regionEnd) :
    b.committed = (b.pending.filter fun m => m.stage = .committed).map Message.content := by
  obtain ⟨old, done, todo, batch, rest, hinv⟩ := h
  have hold : (old.filter fun m => m.stage = .committed) = [] := by
    rw [List.filter_eq_nil_iff]
    intro m hm
    simp [hinv.old_cleared m (by simp [hm])]
  have hmessages : b.messages = old ++ b.pending := by
    rw [hinv.pending_eq, hinv.messages]; simp
  rw [Bus.committed, hmessages, List.filter_append, hold, List.nil_append]

variable (skipItem : Bytes → Bool) (hE : regionEnd % 4 = 0)
include hE

theorem Bus.Ok.headed_prefix (h : b.Ok regionEnd) : b.headed <+: b.walked regionEnd := by
  refine takeWhile_prefix_of_imp fun m hm hs => ?_
  simp only [decide_eq_true_eq] at hs ⊢
  exact h.pending_pool.passes hE hm hs

/-- The two ways in which the walk ends. -/
theorem Bus.Ok.recovered (h : b.Ok regionEnd) :
    (b.pending.dropWhile (fun m => m.Passes regionEnd b.region.data) = [] ∧
      b.walked regionEnd = b.pending ∧
      (recoverRegion skipItem regionEnd b.region).flatten = found skipItem b.pending) ∨
    b.pending.dropWhile (fun m => m.Passes regionEnd b.region.data) ≠ [] ∧
      ∃ more, (recoverRegion skipItem regionEnd b.region).flatten =
        fullBatches (found skipItem (b.walked regionEnd)) ++ more ∧
        (b.WalkStops regionEnd → more = []) := by
  have hpool := h.pending_pool
  have hsplit : b.walked regionEnd ++
      b.pending.dropWhile (fun m => m.Passes regionEnd b.region.data) = b.pending :=
    List.takeWhile_append_dropWhile
  have hpass : ∀ m ∈ b.walked regionEnd, m.Passes regionEnd b.region.data := by
    intro m hm
    simpa using List.mem_takeWhile_imp hm
  cases htail : b.pending.dropWhile (fun m => m.Passes regionEnd b.region.data) with
  | nil =>
    rw [htail, List.append_nil] at hsplit
    exact .inl ⟨rfl, hsplit, Pool.recoverRegion_all skipItem hE (hsplit ▸ hpass) hpool⟩
  | cons m tail =>
    rw [htail] at hsplit
    have hpool' : Pool regionEnd b.region (b.walked regionEnd ++ m :: tail) := hsplit.symm ▸ hpool
    obtain ⟨more, hmore, hhalt⟩ := Pool.recoverRegion_until skipItem hE hpass hpool'
    refine .inr ⟨List.cons_ne_nil _ _, more, hmore, fun hstops => hhalt ?_⟩
    exact hstops m (by rw [htail]; rfl)

variable (hpos : 0 < regionEnd) {ops : List Bus.Op} (hfits : ∀ op ∈ ops, op.Fits regionEnd)
  (hrun : Bus.run regionEnd ops .init = some b)
include hpos hfits hrun

/-- In every state in which the walk stops where it would lose its way, recovery passes on only
messages that are committed and not consumed, none of them twice. -/
theorem recover_sound (hstops : b.WalkStops regionEnd) :
    (recoverRegion skipItem regionEnd b.region).flatten.Sublist b.committed := by
  have hok := (Bus.init_ok hpos).run hE hfits hrun
  rw [hok.committed_eq]
  rcases hok.recovered skipItem hE with ⟨-, -, hall⟩ | ⟨-, more, hmore, hnone⟩
  · rw [hall]
    exact found_sublist skipItem (List.Sublist.refl _)
  · rw [hmore, hnone hstops, List.append_nil]
    exact (List.take_sublist _ _).trans (found_sublist skipItem (List.takeWhile_sublist _))

/-- Recovery passes on everything it should find in front of the first slot without header as
long as the full batches reach that far, and where the walk stops it has to be so. -/
theorem recover_complete :
    (b.BatchesReach skipItem regionEnd →
      (found skipItem b.headed).Sublist (recoverRegion skipItem regionEnd b.region).flatten) ∧
    (b.WalkStops regionEnd →
      (found skipItem b.headed).Sublist (recoverRegion skipItem regionEnd b.region).flatten →
      b.BatchesReach skipItem regionEnd) := by
  have hok := (Bus.init_ok hpos).run hE hfits hrun
  have hfront := found_prefix skipItem (hok.headed_prefix hE)
  rcases hok.recovered skipItem hE with ⟨hnil, hwalked, hall⟩ | ⟨hne, more, hmore, hnone⟩
  · rw [hwalked] at hfront
    exact ⟨fun _ => hall ▸ hfront.sublist, fun _ _ => .inl hnil⟩
  · constructor
    · rintro (hnil | hlen)
      · exact absurd hnil hne
      · rw [hmore]
        have htake : found skipItem b.headed <+:
            fullBatches (found skipItem (b.walked regionEnd)) :=
          List.prefix_take_iff.mpr ⟨hfront, hlen⟩
        exact (htake.trans (List.prefix_append _ _)).sublist
    · intro hstops hsub
      rw [hmore, hnone hstops, List.append_nil] at hsub
      have hlen := hsub.length_le
      rw [fullBatches, List.length_take] at hlen
      exact .inr (hlen.trans (Nat.min_le_left _ _))

end Reachable

/-! ## Sample runs -/

/-- `dp::skip_item` on the payload of a message. -/
def skipsItem (msg : Bytes) : Bool := (Cbor.skipItem msg).isSome

/-- A message with the given payload is allocated and committed as the `i`-th one. -/
def commitAlone (i : Nat) (payload : Bytes) : List Bus.Op :=
  [.allocate payload.length, .storeHead i] ++
    payload.zipIdx.map (fun x => .write i x.2 x.1) ++ [.commit i]

/-- An uncommitted message without header lies behind a committed one. -/
def earlyReturnRun : List Bus.Op := commitAlone 0 [0x00] ++ [.allocate 1]

/-- The region is filled to its end and drained twice. A message without header then lies at
position 0, where the consumed header of a shorter one is left, and behind it a committed
message whose payload can be read as a message. -/
def strayRun : List Bus.Op :=
  [.allocate 8, .storeHead 0, .commit 0, .allocate 96, .storeHead 1, .commit 1] ++
    List.replicate 14 .consume ++ [.allocate 3916, .storeHead 2, .commit 2] ++
    List.replicate 10 .consume ++ [.allocate 100] ++
    commitAlone 4 [0, 0, 0, 0, 1, 0, 0, 0, 0, 0, 0, 0, 4, 0, 0, 0, 0, 0, 0, 0]

/-- A consumed message, and behind it two committed ones with an uncommitted one between them. -/
def severalRun : List Bus.Op :=
  commitAlone 0 [0x00] ++ List.replicate 10 .consume ++ commitAlone 1 [0x18, 0x20] ++
    [.allocate 5, .storeHead 2] ++ commitAlone 3 [0x01]

theorem recover_sound_sample :
    ∃ b, Bus.run 4032 severalRun .init = some b ∧
      (recoverRegion skipsItem 4032 b.region).flatten = [[0x18, 0x20], [0x01]] ∧
      (recoverRegion skipsItem 4032 b.region).flatten.Sublist b.committed := by
  obtain ⟨b, hrun⟩ := Option.isSome_iff_exists.mp
    (show (Bus.run 4032 severalRun .init).isSome by decide +kernel)
  have hsample : (Bus.run 4032 severalRun .init).map (fun b =>
      decide (b.WalkStops 4032 ∧
        (recoverRegion skipsItem 4032 b.region).flatten = [[0x18, 0x20], [0x01]])) = some true := by
    decide +kernel
  rw [hrun, Option.map_some, Option.some.injEq, decide_eq_true_iff] at hsample
  obtain ⟨hstops, hfound⟩ := hsample
  exact ⟨b, hrun, hfound,
    recover_sound skipsItem (by decide) (by decide) (by decide) hrun hstops⟩

theorem recover_complete_sample :
    ∃ b, Bus.run 4032 severalRun .init = some b ∧
      found skipsItem b.headed = [[0x18, 0x20], [0x01]] ∧
      (found skipsItem b.headed).Sublist (recoverRegion skipsItem 4032 b.region).flatten := by
  obtain ⟨b, hrun⟩ := Option.isSome_iff_exists.mp
    (show (Bus.run 4032 severalRun .init).isSome by decide +kernel)
  have hsample : (Bus.run 4032 severalRun .init).map (fun b =>
      decide ((b.pending.dropWhile fun m => m.Passes 4032 b.region.data).length = 0 ∧
        found skipsItem b.headed = [[0x18, 0x20], [0x01]])) = some true := by
    decide +kernel
  rw [hrun, Option.map_some, Option.some.injEq, decide_eq_true_iff, List.length_eq_zero_iff]
    at hsample
  obtain ⟨hreach, hfound⟩ := hsample
  exact ⟨b, hrun, hfound,
    (recover_complete skipsItem (by decide) (by decide) (by decide) hrun).1 (.inl hreach)⟩

/-- Recovery passes on byte strings that were never committed. -/
theorem recover_not_sound : ¬ ∀ ops : List Bus.Op, (∀ op ∈ ops, op.Fits 4032) →
    ∀ b, Bus.run 4032 ops .init = some b →
      (recoverRegion skipsItem 4032 b.region).flatten.Sublist b.committed := by
  intro hall
  obtain ⟨b, hrun⟩ := Option.isSome_iff_exists.mp
    (show (Bus.run 4032 strayRun .init).isSome by decide +kernel)
  have hbad : (Bus.run 4032 strayRun .init).map (fun b =>
      decide ((recoverRegion skipsItem 4032 b.region).flatten.Sublist b.committed)) =
        some false := by decide +kernel
  rw [hrun, Option.map_some, Option.some.injEq, decide_eq_false_iff_not] at hbad
  exact hbad (hall strayRun (by decide) b hrun)

/-- Recovery drops a committed message in front of the first slot without header. -/
theorem recover_not_complete : ¬ ∀ ops : List Bus.Op, (∀ op ∈ ops, op.Fits 4032) →
    ∀ b, Bus.run 4032 ops .init = some b →
      (found skipsItem b.headed).Sublist (recoverRegion skipsItem 4032 b.region).flatten := by
  intro hall
  obtain ⟨b, hrun⟩ := Option.isSome_iff_exists.mp
    (show (Bus.run 4032 earlyReturnRun .init).isSome by decide)
  have hbad : (Bus.run 4032 earlyReturnRun .init).map (fun b =>
      decide ((found skipsItem b.headed).Sublist
        (recoverRegion skipsItem 4032 b.region).flatten)) = some false := by decide
  rw [hrun, Option.map_some, Option.some.injEq, decide_eq_false_iff_not] at hbad
  exact hbad (hall earlyReturnRun (by decide) b hrun)

end Deeplog.Mpsc

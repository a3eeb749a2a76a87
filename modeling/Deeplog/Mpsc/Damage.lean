import Mathlib.Data.List.Chain
import Deeplog.Mpsc.Create

/-!
# Recovery of damaged files

`recover_region` takes its position from the read hand and from header words that anything may
have happened to. It checks a size against the data area before it uses it, and limits the number
of headers. The read hand it takes as it is. A hand behind the data area leads the first access
astray, one that is not aligned may lead a later one past the end, and in a region of more than
3 GiB the sum that tells whether a payload has been wrapped can wrap itself.
-/

namespace Deeplog.Mpsc

section Code

variable (skipItem : Bytes → Bool) (regionEnd : Nat)

/-- The arguments of a call of `block.subspan`. -/
structure Subspan where
  offset : Nat
  count : Nat

def Subspan.Inside (s : Subspan) : Prop := s.offset + s.count ≤ regionEnd

/-- The subspans that are taken in one pass of the inner loop of `recover_region`. -/
def recoverSubspans (data : Nat → UInt8) (readPos : Nat) : List Subspan :=
  let msgHead := loadWord data readPos
  let msgSize := msgHead &&& messageSizeMask
  ⟨readPos, 4⟩ ::
    if regionEnd < u32 (blockSize + msgSize) then []
    else
      let start := wrapStart regionEnd readPos msgSize
      if msgHead &&& messageFlagMask = 0 then [⟨u32 (start + blockSize), msgSize⟩] else []

/-- The positions of the headers that the inner loop looks at. -/
def batchHeaders (region : Region) : Nat → Nat → List Bytes → List Nat
  | 0, _, _ => []
  | left + 1, readPos, msgs =>
    if msgs.length < consumeBatchSize ∧ readPos ≠ region.allocPtr then
      readPos :: match recoverStep skipItem regionEnd region.data readPos msgs with
        | none => []
        | some (readPos, msgs) => batchHeaders region left readPos msgs
    else []

/-- The positions of the headers that the outer loop looks at. -/
def loopHeaders (region : Region) : Nat → Nat → Nat → List Nat
  | 0, _, _ => []
  | fuel + 1, left, readPos =>
    if left ≠ 0 ∧ readPos ≠ region.allocPtr then
      batchHeaders skipItem regionEnd region left readPos [] ++
        match recoverBatch skipItem regionEnd region left readPos [] with
        | none => []
        | some (left, readPos, _) => loopHeaders region fuel left readPos
    else []

/-- The headers that `recover_region` looks at. -/
def recoverHeaders (region : Region) : List Nat :=
  let limit := regionEnd / 4
  loopHeaders skipItem regionEnd region (limit + 1) limit region.readPtr

/-- The outer loop comes to an end, with these batches. -/
inductive RecoverEnds (region : Region) : (left readPos : Nat) → List (List Bytes) → Prop
  | done {left readPos : Nat} (h : ¬(left ≠ 0 ∧ readPos ≠ region.allocPtr)) :
      RecoverEnds region left readPos []
  | returned {left readPos : Nat} (h : left ≠ 0 ∧ readPos ≠ region.allocPtr)
      (hbatch : recoverBatch skipItem regionEnd region left readPos [] = none) :
      RecoverEnds region left readPos []
  | batch {left readPos left' readPos' : Nat} {msgs : List Bytes} {out : List (List Bytes)}
      (h : left ≠ 0 ∧ readPos ≠ region.allocPtr)
      (hbatch : recoverBatch skipItem regionEnd region left readPos [] =
        some (left', readPos', msgs))
      (hrest : RecoverEnds region left' readPos' out) :
      RecoverEnds region left readPos (msgs :: out)

/-- No access leaves the data area, no more headers are looked at than fit into it, and the loop
ends. -/
structure RecoversSafely (region : Region) : Prop where
  inside : ∀ p ∈ recoverHeaders skipItem regionEnd region,
    ∀ s ∈ recoverSubspans regionEnd region.data p, s.Inside regionEnd
  limited : (recoverHeaders skipItem regionEnd region).length ≤ regionEnd / 4
  ends : RecoverEnds skipItem regionEnd region (regionEnd / 4) region.readPtr
    (recoverRegion skipItem regionEnd region)

end Code

/-! ## The walk without batches -/

section Walk

variable (regionEnd : Nat)

/-- The size that a header shows. -/
def shownSize (data : Nat → UInt8) (p : Nat) : Nat := loadWord data p &&& messageSizeMask

/-- Where the header behind the one at `p` is looked for. -/
def nextHeader (data : Nat → UInt8) (p : Nat) : Nat :=
  stepOver regionEnd (wrapStart regionEnd p (shownSize data p))
    (roundUpP2 (shownSize data p) blockSize)

/-- The headers from `p` on, at most `left` of them. -/
def walk (region : Region) : (left p : Nat) → List Nat
  | 0, _ => []
  | left + 1, p =>
    if p = region.allocPtr then []
    else p :: if regionEnd < u32 (blockSize + shownSize region.data p) then []
      else walk region left (nextHeader regionEnd region.data p)

variable {regionEnd} {skipItem : Bytes → Bool} {region : Region}

theorem recoverStep_none {data : Nat → UInt8} {p : Nat} (msgs : List Bytes)
    (h : regionEnd < u32 (blockSize + shownSize data p)) :
    recoverStep skipItem regionEnd data p msgs = none := if_pos h

theorem recoverStep_some (skipItem : Bytes → Bool) {data : Nat → UInt8} {p : Nat}
    (msgs : List Bytes)
    (h : ¬regionEnd < u32 (blockSize + shownSize data p)) :
    ∃ msgs', recoverStep skipItem regionEnd data p msgs =
      some (nextHeader regionEnd data p, msgs') := ⟨_, if_neg h⟩

/-- The inner loop goes a part of the walk. -/
theorem batchHeaders_append (skipItem : Bytes → Bool) (left p : Nat) (msgs : List Bytes) :
    batchHeaders skipItem regionEnd region left p msgs ++
        (match recoverBatch skipItem regionEnd region left p msgs with
          | none => []
          | some (left, p, _) => walk regionEnd region left p) =
      walk regionEnd region left p := by
  induction left generalizing p msgs with
  | zero => rfl
  | succ left ih =>
    rw [batchHeaders, recoverBatch]
    split
    case isFalse => rfl
    case isTrue hgo =>
      rw [walk, if_neg hgo.2]
      by_cases hbad : regionEnd < u32 (blockSize + shownSize region.data p)
      · rw [recoverStep_none msgs hbad, if_pos hbad]
        rfl
      · obtain ⟨msgs', hstep⟩ := recoverStep_some skipItem msgs hbad
        rw [hstep, if_neg hbad]
        exact congrArg (p :: ·) (ih _ msgs')

/-- The inner loop takes at least one of the passes that are left. -/
theorem recoverBatch_left {left p left' p' : Nat} {msgs msgs' : List Bytes}
    (h : recoverBatch skipItem regionEnd region left p msgs = some (left', p', msgs')) :
    left' ≤ left ∧ (left ≠ 0 ∧ p ≠ region.allocPtr → msgs = [] → left' < left) := by
  induction left generalizing p msgs with
  | zero => cases h; exact ⟨le_rfl, fun hgo => absurd rfl hgo.1⟩
  | succ left ih =>
    rw [recoverBatch] at h
    split at h
    case isFalse hstop =>
      cases h
      refine ⟨le_rfl, ?_⟩
      rintro ⟨-, hp⟩ rfl
      exact absurd ⟨Nat.zero_lt_succ 63, hp⟩ hstop
    case isTrue hgo =>
      split at h
      · cases h
      · have := (ih h).1
        omega

/-- With enough fuel, the outer loop goes the whole walk. -/
theorem loopHeaders_eq {fuel left : Nat} (hfuel : left < fuel) (p : Nat) :
    loopHeaders skipItem regionEnd region fuel left p = walk regionEnd region left p := by
  induction fuel generalizing left p with
  | zero => omega
  | succ fuel ih =>
    rw [loopHeaders]
    split
    case isFalse hstop =>
      cases left with
      | zero => rfl
      | succ left => rw [walk, if_pos (by simpa using hstop)]
    case isTrue hgo =>
      rw [← batchHeaders_append skipItem left p []]
      cases hbatch : recoverBatch skipItem regionEnd region left p [] with
      | none => rfl
      | some x =>
        have hlt := (recoverBatch_left hbatch).2 hgo rfl
        exact congrArg (batchHeaders skipItem regionEnd region left p [] ++ ·) (ih (by omega) x.2.1)

theorem recoverHeaders_eq (skipItem : Bytes → Bool) (regionEnd : Nat) (region : Region) :
    recoverHeaders skipItem regionEnd region =
      walk regionEnd region (regionEnd / 4) region.readPtr :=
  loopHeaders_eq (Nat.lt_succ_self _) _

theorem walk_length (left p : Nat) : (walk regionEnd region left p).length ≤ left := by
  induction left generalizing p with
  | zero => simp [walk]
  | succ left ih =>
    rw [walk]
    split
    · simp
    · split
      · simp
      · simpa using ih _

/-- The fuel of the outer loop does not run out. -/
theorem recoverLoop_ends {fuel left : Nat} (hfuel : left < fuel) (p : Nat) :
    RecoverEnds skipItem regionEnd region left p
      (recoverLoop skipItem regionEnd region fuel left p) := by
  induction fuel generalizing left p with
  | zero => omega
  | succ fuel ih =>
    rw [recoverLoop]
    split
    case isFalse hstop => exact .done hstop
    case isTrue hgo =>
      cases hbatch : recoverBatch skipItem regionEnd region left p [] with
      | none => exact .returned hgo hbatch
      | some x =>
        have hlt := (recoverBatch_left hbatch).2 hgo rfl
        exact .batch hgo hbatch (ih (by omega) _)

end Walk

/-! ## Where it goes wrong -/

section Astray

/-- The header is not aligned, and its payload, rounded up, leaves no room for another header. -/
def Overruns (regionEnd : Nat) (data : Nat → UInt8) (p : Nat) : Prop :=
  p % 4 ≠ 0 ∧ p + 4 + shownSize data p ≤ regionEnd ∧
    regionEnd < p + 4 + allocSizeOf (shownSize data p) + 4

/-- The message is committed, and the end of its payload wraps. -/
def EndWraps (regionEnd : Nat) (data : Nat → UInt8) (p : Nat) : Prop :=
  loadWord data p &&& messageFlagMask = 0 ∧ 4 + shownSize data p ≤ regionEnd ∧
    2 ^ 32 ≤ p + 4 + shownSize data p

instance (regionEnd : Nat) (data : Nat → UInt8) (p : Nat) :
    Decidable (Overruns regionEnd data p) := inferInstanceAs (Decidable (_ ∧ _))

instance (regionEnd : Nat) (data : Nat → UInt8) (p : Nat) :
    Decidable (EndWraps regionEnd data p) := inferInstanceAs (Decidable (_ ∧ _))

variable {regionEnd : Nat} {data : Nat → UInt8} {p : Nat}

theorem shownSize_lt (data : Nat → UInt8) (p : Nat) : shownSize data p < 2 ^ 30 :=
  and_sizeMask_lt _

/-- A header that is not refused shows a size that fits into the data area. -/
theorem shown_fits_iff :
    regionEnd < u32 (blockSize + shownSize data p) ↔ regionEnd < 4 + shownSize data p := by
  have := shownSize_lt data p
  rw [blockSize, u32_of_lt (by omega)]

variable (hE : regionEnd % 4 = 0) (hlt : regionEnd + 64 ≤ 2 ^ 32) (hp : p + 4 ≤ regionEnd)
  (hfits : 4 + shownSize data p ≤ regionEnd)
include hE hlt hp hfits

omit hE in
/-- The sum that decides whether a payload has been wrapped can wrap itself. -/
theorem wrapStart_eq : wrapStart regionEnd p (shownSize data p) =
    if regionEnd < p + 4 + shownSize data p ∧ p + 4 + shownSize data p < 2 ^ 32 then 2 ^ 32 - 4
    else p := by
  have hs := shownSize_lt data p
  rw [wrapStart, blockSize, u32_of_lt (n := p + 4) (by omega),
    u32_of_lt (n := 2 ^ 32 - 4) (by omega), u32]
  split_ifs <;> omega

/-- The next header lies behind the payload, at the start of the area if that is its end. -/
theorem nextHeader_eq : nextHeader regionEnd data p =
    if p + 4 + shownSize data p ≤ regionEnd then
      if p + 4 + allocSizeOf (shownSize data p) = regionEnd then 0
      else p + 4 + allocSizeOf (shownSize data p)
    else if p + 4 + shownSize data p < 2 ^ 32 then allocSizeOf (shownSize data p)
    else p + 4 + allocSizeOf (shownSize data p) - 2 ^ 32 := by
  have hs := shownSize_lt data p
  have ha : shownSize data p ≤ allocSizeOf (shownSize data p) ∧
      allocSizeOf (shownSize data p) < shownSize data p + 4 ∧
      allocSizeOf (shownSize data p) % 4 = 0 := allocSizeOf_of_lt (by omega)
  have hround : roundUpP2 (shownSize data p) blockSize = allocSizeOf (shownSize data p) := rfl
  have hstart := wrapStart_eq hlt hp hfits
  rw [nextHeader, hround]
  generalize wrapStart regionEnd p (shownSize data p) = start at *
  generalize shownSize data p = size at *
  generalize allocSizeOf size = allocSize at *
  rw [stepOver, blockSize, u32_of_lt (n := allocSize + 4) (by omega)]
  by_cases hin : p + 4 + size ≤ regionEnd
  · rw [if_neg (by omega)] at hstart
    subst hstart
    rw [if_pos hin, u32_of_lt (by omega), Nat.add_comm allocSize, ← Nat.add_assoc]
  · rw [if_neg hin]
    by_cases hwrap : p + 4 + size < 2 ^ 32
    · rw [if_pos ⟨by omega, hwrap⟩] at hstart
      have hnext : u32 (start + (allocSize + 4)) = allocSize := by
        unfold u32
        omega
      rw [if_pos hwrap, hnext]
      exact if_neg (by omega)
    · rw [if_neg (by omega)] at hstart
      have hnext : u32 (start + (allocSize + 4)) = p + 4 + allocSize - 2 ^ 32 := by
        unfold u32
        omega
      rw [if_neg hwrap, hnext]
      exact if_neg (by omega)

/-- The next header lies in the data area unless the message overruns it. -/
theorem nextHeader_inside_iff :
    nextHeader regionEnd data p + 4 ≤ regionEnd ↔ ¬Overruns regionEnd data p := by
  have hs := shownSize_lt data p
  have ha : shownSize data p ≤ allocSizeOf (shownSize data p) ∧
      allocSizeOf (shownSize data p) < shownSize data p + 4 ∧
      allocSizeOf (shownSize data p) % 4 = 0 := allocSizeOf_of_lt (by omega)
  rw [nextHeader_eq hE hlt hp hfits, Overruns]
  split_ifs <;> omega

omit hE in
/-- The payload of a committed message lies in the data area unless its end wraps. -/
theorem payload_inside_iff :
    u32 (wrapStart regionEnd p (shownSize data p) + blockSize) + shownSize data p ≤ regionEnd ↔
      ¬2 ^ 32 ≤ p + 4 + shownSize data p := by
  have hs := shownSize_lt data p
  rw [wrapStart_eq hlt hp hfits, blockSize, u32]
  split_ifs <;> omega

end Astray

section Sound

variable {regionEnd : Nat} {region : Region} {p : Nat} (hlt : regionEnd + 64 ≤ 2 ^ 32)
include hlt

/-- A pass that starts in the data area stays there unless the end of the payload wraps. -/
theorem recoverSubspans_inside_iff (hp : p + 4 ≤ regionEnd) :
    (∀ s ∈ recoverSubspans regionEnd region.data p, s.Inside regionEnd) ↔
      ¬EndWraps regionEnd region.data p := by
  have hhead : (⟨p, 4⟩ : Subspan).Inside regionEnd := hp
  have hfits : regionEnd < u32 (blockSize + shownSize region.data p) ↔
      regionEnd < 4 + shownSize region.data p := shown_fits_iff
  have hsize : loadWord region.data p &&& messageSizeMask = shownSize region.data p := rfl
  rw [recoverSubspans, List.forall_mem_cons]
  simp only [hhead, true_and, EndWraps, hsize]
  by_cases hbad : regionEnd < 4 + shownSize region.data p
  · rw [if_pos (hfits.mpr hbad)]
    exact iff_of_true nofun fun h => absurd h.2.1 (by omega)
  · rw [if_neg (mt hfits.mp hbad)]
    have hin := payload_inside_iff hlt hp (Nat.le_of_not_lt hbad)
    by_cases hflags : loadWord region.data p &&& messageFlagMask = 0
    · rw [if_pos hflags, List.forall_mem_singleton]
      simp only [hflags, Nat.le_of_not_lt hbad, true_and]
      exact hin
    · rw [if_neg hflags]
      exact iff_of_true nofun fun h => hflags h.1

variable (hE : regionEnd % 4 = 0)
include hE

theorem walk_inside_iff {left : Nat} (hp : p = region.allocPtr ∨ p + 4 ≤ regionEnd) :
    (∀ q ∈ walk regionEnd region left p,
      ∀ s ∈ recoverSubspans regionEnd region.data q, s.Inside regionEnd) ↔
    (walk regionEnd region left p).IsChain (fun q _ => ¬Overruns regionEnd region.data q) ∧
      ∀ q ∈ walk regionEnd region left p, ¬EndWraps regionEnd region.data q := by
  induction left generalizing p with
  | zero => simp [walk]
  | succ left ih =>
    rw [walk]
    split
    case isTrue => simp
    case isFalse hne =>
      have hp := hp.resolve_left hne
      have hhere : (∀ s ∈ recoverSubspans regionEnd region.data p, s.Inside regionEnd) ↔
          ¬EndWraps regionEnd region.data p := recoverSubspans_inside_iff hlt hp
      split
      case isTrue => simp [hhere]
      case isFalse hok =>
        have hfits := Nat.le_of_not_lt (mt shown_fits_iff.mpr hok)
        have hnext := nextHeader_inside_iff hE hlt hp hfits
        generalize nextHeader regionEnd region.data p = next at hnext ⊢
        rw [List.forall_mem_cons, List.forall_mem_cons, hhere, List.isChain_cons]
        by_cases htail : next = region.allocPtr ∨ next + 4 ≤ regionEnd
        · have hhead : ∀ q ∈ (walk regionEnd region left next).head?,
              ¬Overruns regionEnd region.data p := by
            rcases htail with rfl | hin
            · cases left <;> simp [walk]
            · exact fun _ _ => hnext.mp hin
          have hrest := ih htail
          tauto
        · simp only [not_or] at htail
          have hover := not_not.mp (mt hnext.mpr htail.2)
          cases left with
          | zero => simp [walk]
          | succ left =>
            rw [walk, if_neg htail.1]
            refine iff_of_false (fun h => htail.2 ?_) fun h => h.1.1 next rfl hover
            exact h.2 next List.mem_cons_self ⟨next, 4⟩ List.mem_cons_self

/-- An aligned header in the data area leads to another one. -/
theorem nextHeader_aligned (hp : p + 4 ≤ regionEnd) (ha : p % 4 = 0)
    (hfits : 4 + shownSize region.data p ≤ regionEnd) :
    nextHeader regionEnd region.data p + 4 ≤ regionEnd ∧
      nextHeader regionEnd region.data p % 4 = 0 := by
  have hs := shownSize_lt region.data p
  have halloc : allocSizeOf (shownSize region.data p) % 4 = 0 :=
    (allocSizeOf_of_lt (by omega)).2.2
  refine ⟨(nextHeader_inside_iff hE hlt hp hfits).mpr fun hover => hover.1 ha, ?_⟩
  rw [nextHeader_eq hE hlt hp hfits]
  split_ifs <;> omega

theorem walk_aligned {left : Nat} (hp : p + 4 ≤ regionEnd) (ha : p % 4 = 0) :
    ∀ q ∈ walk regionEnd region left p, q + 4 ≤ regionEnd ∧ q % 4 = 0 := by
  induction left generalizing p with
  | zero => simp [walk]
  | succ left ih =>
    rw [walk]
    split
    case isTrue => simp
    case isFalse =>
      refine List.forall_mem_cons.mpr ⟨⟨hp, ha⟩, ?_⟩
      split
      case isTrue => simp
      case isFalse hok =>
        have hfits := Nat.le_of_not_lt (mt shown_fits_iff.mpr hok)
        obtain ⟨hnext, hnexta⟩ := nextHeader_aligned hlt hE hp ha hfits
        exact ih hnext hnexta

end Sound

/-- The read hand leads to a header in the data area, no message on the way overruns the area
where the walk goes on behind it, and no end of a committed payload wraps. -/
structure Walkable (regionEnd : Nat) (region : Region) : Prop where
  start : region.readPtr = region.allocPtr ∨ region.readPtr + 4 ≤ regionEnd
  room : (walk regionEnd region (regionEnd / 4) region.readPtr).IsChain fun p _ =>
    ¬Overruns regionEnd region.data p
  narrow : ∀ p ∈ walk regionEnd region (regionEnd / 4) region.readPtr,
    ¬EndWraps regionEnd region.data p

section

variable {skipItem : Bytes → Bool} {regionEnd : Nat} {region : Region}

/-- With an aligned read hand, nothing goes wrong in a region of at most 3 GiB. -/
theorem Walkable.of_aligned (hE : regionEnd % 4 = 0) (hsmall : regionEnd ≤ 3 * 2 ^ 30)
    (hread : region.readPtr + 4 ≤ regionEnd) (ha : region.readPtr % 4 = 0) :
    Walkable regionEnd region := by
  have hall : ∀ q ∈ walk regionEnd region (regionEnd / 4) region.readPtr,
      q + 4 ≤ regionEnd ∧ q % 4 = 0 := walk_aligned (by omega) hE hread ha
  refine ⟨.inr hread, ?_, fun p hp hwraps => ?_⟩
  · refine List.Pairwise.isChain (List.pairwise_of_forall_mem_list fun p hp _ _ hover => ?_)
    exact hover.1 (hall p hp).2
  · have hin := (hall p hp).1
    have hs := shownSize_lt region.data p
    have hend := hwraps.2.2
    omega

theorem recoversSafely_iff (hE : regionEnd % 4 = 0) (hpos : 4 ≤ regionEnd)
    (hlt : regionEnd + 64 ≤ 2 ^ 32) :
    RecoversSafely skipItem regionEnd region ↔ Walkable regionEnd region := by
  have hheaders := recoverHeaders_eq skipItem regionEnd region
  constructor
  · intro h
    have hstart : region.readPtr = region.allocPtr ∨ region.readPtr + 4 ≤ regionEnd := by
      refine or_iff_not_imp_left.mpr fun hne => ?_
      have hmem : region.readPtr ∈ recoverHeaders skipItem regionEnd region := by
        obtain ⟨left, hleft⟩ : ∃ left, regionEnd / 4 = left + 1 := ⟨regionEnd / 4 - 1, by omega⟩
        rw [hheaders, hleft, walk, if_neg hne]
        exact List.mem_cons_self
      exact h.inside _ hmem ⟨region.readPtr, 4⟩ List.mem_cons_self
    have hinside := h.inside
    rw [hheaders, walk_inside_iff hlt hE hstart] at hinside
    exact ⟨hstart, hinside.1, hinside.2⟩
  · intro h
    refine ⟨?_, hheaders ▸ walk_length _ _, recoverLoop_ends (Nat.lt_succ_self _) _⟩
    rw [hheaders, walk_inside_iff hlt hE h.start]
    exact ⟨h.room, h.narrow⟩

/-- The sizes of a file that passes the checks. -/
theorem readHead_spec {codec : InfoCodec} {file : File} {self : Handle}
    (h : readHead codec file = .ok self) :
    self.regionEnd % 4 = 0 ∧ 4 ≤ self.regionEnd ∧ self.regionEnd + 64 ≤ 2 ^ 32 := by
  unfold readHead at h
  split at h
  · cases h
  · split at h
    · cases h
    · split at h
      · cases h
      · split at h
        · cases h
        · rename_i hparams
          split at h
          · cases h
          · cases h
            simp only [not_or, not_lt, not_not, minRegionSize, pageSize] at hparams
            simp only [Handle.regionEnd, regionCtrlOverhead]
            omega

/-- Whatever the regions of a bus file hold, their recovery is safe exactly if they can be walked
through. -/
theorem recover_safe_iff {codec : InfoCodec} {file : File} {self : Handle}
    (hhead : readHead codec file = .ok self) :
    (∀ which < self.numRegions.toNat,
      RecoversSafely skipItem self.regionEnd (self.region file which)) ↔
    ∀ which < self.numRegions.toNat, Walkable self.regionEnd (self.region file which) := by
  obtain ⟨hE, hpos, hlt⟩ := readHead_spec hhead
  exact forall₂_congr fun _ _ => recoversSafely_iff hE hpos hlt

end

/-! ## Samples -/

/-- The file of a bus with one region, in which these bytes have been written. -/
theorem damaged_head (bs : Bytes) (hlen : bs.length ≤ 4096) : ∃ file : File,
    readHead plainInfo (file.write headAreaSize bs) = .ok ⟨1, 4096⟩ := by
  obtain ⟨bus, file, h⟩ := mpscBus_newFile (show Accepted 1 4096 by decide)
  have hcreated := mpscBus_created h
  have hreal : realRegionSize 4096 = 4096 := by decide
  have hbus : bus = ⟨1, 4096⟩ := by
    rw [hcreated.bus_eq, hreal]
    rfl
  have hsize : (file.write headAreaSize bs).size = file.size := by
    rw [File.size_write, hcreated.size, hreal]
    exact Nat.max_eq_left (Nat.add_le_add_left hlen _)
  refine ⟨file, ?_⟩
  rw [hcreated.readHead_eq hsize fun i hi => File.byte_write_of_not_mem (by omega),
    if_neg (by decide), hbus]

/-- A region whose hands are 8 and 28, with messages of five and three bytes between them. -/
def twoMessages : Bytes :=
  [8, 0, 0, 0, 28, 0, 0, 0] ++ List.replicate 64 0 ++
    [5, 0, 0, 0, 1, 2, 3, 4, 5, 0, 0, 0, 3, 0, 0, 0, 0x42, 0, 0, 0]

theorem recover_safe_iff_messages : ∃ file self, readHead plainInfo file = .ok self ∧
    ∀ which < self.numRegions.toNat,
      RecoversSafely skipsItem self.regionEnd (self.region file which) := by
  obtain ⟨file, hhead⟩ := damaged_head twoMessages (by decide)
  refine ⟨_, _, hhead, (recover_safe_iff hhead).mpr fun which hwhich => ?_⟩
  obtain rfl : which = 0 := Nat.lt_one_iff.mp hwhich
  have hread : (Handle.region ⟨1, 4096⟩ (file.write headAreaSize twoMessages) 0).readPtr = 8 := by
    simp [Handle.region, Handle.regionAddress, loadWord, File.write, headAreaSize, twoMessages]
  refine Walkable.of_aligned (by decide) (by decide) ?_ ?_
  · rw [hread]
    decide
  · rw [hread]

/-- The first access follows a read hand that lies behind the data area. -/
theorem recover_not_safe : ¬∀ (codec : InfoCodec) (skipItem : Bytes → Bool) (file : File)
    (self : Handle), readHead codec file = .ok self → ∀ which < self.numRegions.toNat,
      RecoversSafely skipItem self.regionEnd (self.region file which) := by
  intro hall
  obtain ⟨file, hhead⟩ := damaged_head [0xff, 0xff, 0xff, 0xff, 0, 0, 0, 0] (by decide)
  have hwalk := (recover_safe_iff hhead).mp (hall plainInfo skipsItem _ _ hhead) 0 (by decide)
  have hread : (Handle.region ⟨1, 4096⟩ (file.write headAreaSize
      [0xff, 0xff, 0xff, 0xff, 0, 0, 0, 0]) 0).readPtr = 0xffffffff := by
    simp [Handle.region, Handle.regionAddress, loadWord, File.write, headAreaSize]
  have halloc : (Handle.region ⟨1, 4096⟩ (file.write headAreaSize
      [0xff, 0xff, 0xff, 0xff, 0, 0, 0, 0]) 0).allocPtr = 0 := by
    simp [Handle.region, Handle.regionAddress, loadWord, File.write, headAreaSize]
  have hstart := hwalk.start
  rw [hread, halloc] at hstart
  exact absurd hstart (by decide)

end Deeplog.Mpsc

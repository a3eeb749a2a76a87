import Deeplog.Database.Keys

/-!
# The choice of a rotation

A new container or bus takes the rotation behind the largest one of its sink or id, and the open
retry loop goes on in steps of two while the names exist. The loop compares a difference of
unsigned numbers that is negative for small rotations, so that it gives up at once. And the largest
rotation is that of an arbitrary entry if there is none of the same sink or id.
-/

namespace Deeplog.Database

section Spec

variable (existing : Bytes → Bool) (filename : UInt32 → Bytes)

/-- What creating a file makes of the name with this rotation. -/
def answer (rotation : UInt32) : OpenOutcome :=
  if existing (filename rotation) then .fileExists else .opened

/-- The rotations that the open retry loop tries in a directory with these names, if it ends within
`fuel` passes. -/
def triedRotations (lastRotation : UInt32) :
    (fuel : Nat) → (rotation : UInt32) → Option (List UInt32)
  | 0, _ => none
  | fuel + 1, rotation =>
    if existing (filename rotation) then
      if rotation - 10 < lastRotation then
        (triedRotations lastRotation fuel (rotation + 2)).map (rotation :: ·)
      else some [rotation]
    else some [rotation]

/-- The rotations to try behind the last one. -/
def candidates (last : UInt32) : List UInt32 :=
  [last + 1, last + 3, last + 5, last + 7, last + 9, last + 11]

/-- The rotations up to the first one whose name is free. -/
def upToFree : List UInt32 → List UInt32
  | [] => []
  | rotation :: rest =>
    if existing (filename rotation) then rotation :: upToFree rest else [rotation]

/-- The first rotation whose name is free. -/
def firstFree (rotations : List UInt32) : Option UInt32 :=
  rotations.find? fun rotation => !existing (filename rotation)

variable {α : Type} (rotation : α → UInt32) (own : α → Prop) [DecidablePred own]

/-- The largest rotation of the kind, zero if there is none. -/
def largestRotation (entries : List α) : UInt32 :=
  ((entries.filter fun a => own a).map rotation).foldr max 0

/-- The loop tries the rotations behind the largest one up to the first free name, and that is
what is registered; if there is none, the operation fails. -/
def TriesCandidates (entries : List α) (last : UInt32) (create : List OpenOutcome → Plan)
    (register : Option UInt32 → Plan) : Prop :=
  let rotations := candidates (largestRotation rotation own entries)
  ∃ fuel, triedRotations existing filename last fuel (last + 1) =
      some (upToFree existing filename rotations) ∧
    create ((upToFree existing filename rotations).map (answer existing filename)) =
      register (firstFree existing filename rotations)

/-- There is an entry of the kind or the first one of all has no rotation either; and the largest
rotation is not too small, or the first name is free. -/
def RetryWorks (entries : List α) : Prop :=
  let last := largestRotation rotation own entries
  (last ≠ 0 ∨ ∀ first ∈ entries.head?, rotation first = 0) ∧
    (9 ≤ last ∨ existing (filename (last + 1)) = false)

/-- A container has been registered with this rotation. -/
def registerContainer (sinkId : FileSinkId) (cached : Contents) : Option UInt32 → Plan
  | none => .fail cached
  | some rotation =>
    let contents : Contents :=
      { cached with
        revision := cached.revision + 1
        recordContainers := cached.recordContainers ++ [⟨filename rotation, 0, sinkId, rotation⟩] }
    ⟨[contents], some contents⟩

def registerBus (id magic : Bytes) (processId : UInt32) (cached : Contents) : Option UInt32 → Plan
  | none => .fail cached
  | some rotation =>
    let contents : Contents :=
      { cached with
        revision := cached.revision + 1
        messageBuses := cached.messageBuses ++
          [⟨filename rotation, magic, id, rotation, processId⟩] }
    ⟨[contents], some contents⟩

end Spec

/-! ## The largest rotation -/

section Largest

variable {α : Type} {rotation : α → UInt32} {own : α → Prop} [DecidablePred own] {entries : List α}
  {a added : α}

theorem max_eq_ite (x y : UInt32) : max x y = if x ≤ y then y else x := rfl

theorem le_foldr_max {x : UInt32} {xs : List UInt32} (hx : x ∈ xs) : x ≤ xs.foldr max 0 := by
  induction xs with
  | nil => cases hx
  | cons y ys ih =>
    rw [List.foldr_cons, max_eq_ite]
    rcases List.mem_cons.mp hx with rfl | hx
    · split
      case isTrue hle => exact hle
      case isFalse => exact UInt32.le_refl _
    · split
      case isTrue => exact ih hx
      case isFalse hlt => exact UInt32.le_trans (ih hx) (UInt32.le_of_lt (UInt32.not_le.mp hlt))

theorem foldr_max_mem (xs : List UInt32) : xs.foldr max 0 = 0 ∨ xs.foldr max 0 ∈ xs := by
  induction xs with
  | nil => exact .inl rfl
  | cons y ys ih =>
    rw [List.foldr_cons, max_eq_ite]
    split
    · exact ih.imp_right (List.mem_cons_of_mem _)
    · exact .inr List.mem_cons_self

theorem rotation_le_largest (ha : a ∈ entries) (hown : own a) :
    rotation a ≤ largestRotation rotation own entries :=
  le_foldr_max (List.mem_map_of_mem (List.mem_filter.mpr ⟨ha, decide_eq_true hown⟩))

/-- Without a rotation of the kind, `std::ranges::max` returns the first entry. -/
theorem rangesMax_zero {proj : α → UInt32} (h : ∀ a ∈ entries, proj a = 0) :
    rangesMax proj entries = entries.head? := by
  cases entries with
  | nil => rfl
  | cons x xs =>
    refine congrArg some ?_
    have hx := h x List.mem_cons_self
    replace h : ∀ a ∈ xs, proj a = 0 := fun a ha => h a (List.mem_cons_of_mem _ ha)
    induction xs with
    | nil => rfl
    | cons y ys ih =>
      have hy := h y List.mem_cons_self
      rw [List.foldl_cons, if_neg (by rw [hx, hy]; decide)]
      exact ih fun a ha => h a (List.mem_cons_of_mem _ ha)

theorem lastRotation_eq (hadded : rotation added = 0) :
    lastRotation rotation own (entries ++ [added]) =
      if largestRotation rotation own entries = 0 then (entries.head?.map rotation).getD 0
      else largestRotation rotation own entries := by
  split
  case isTrue hzero =>
    have hproj : ∀ a ∈ entries ++ [added], (if own a then rotation a else 0) = 0 := by
      intro a ha
      split
      case isFalse => rfl
      case isTrue howna =>
        rcases List.mem_append.mp ha with hold | hnew
        · exact UInt32.le_zero_iff.mp (hzero ▸ rotation_le_largest hold howna)
        · exact List.mem_singleton.mp hnew ▸ hadded
    rw [lastRotation, rangesMax_zero hproj]
    cases entries with
    | nil => exact hadded
    | cons x xs => rfl
  case isFalse hpos =>
    -- the largest one is the rotation of some entry, which no other one exceeds
    have hmem := (foldr_max_mem ((entries.filter fun a => own a).map rotation)).resolve_left hpos
    obtain ⟨a, ha, hrotation⟩ := List.mem_map.mp hmem
    have howna : own a := of_decide_eq_true (List.mem_filter.mp ha).2
    have hle : rotation a ≤ lastRotation rotation own (entries ++ [added]) :=
      rotation_le_last (List.mem_append_left _ (List.mem_filter.mp ha).1) howna
    have hlargest : rotation a = largestRotation rotation own entries := hrotation
    refine UInt32.le_antisymm ?_ (hlargest ▸ hle)
    rw [lastRotation]
    cases hmax : rangesMax (fun a => if own a then rotation a else 0) (entries ++ [added]) with
    | none => exact UInt32.zero_le
    | some m =>
      obtain ⟨hm, hall⟩ := rangesMax_spec hmax
      have hma := hall a (List.mem_append_left _ (List.mem_filter.mp ha).1)
      have hapos : rotation a ≠ 0 := hlargest ▸ hpos
      simp only [howna, if_true] at hma
      split at hma
      case isFalse => exact absurd (UInt32.le_zero_iff.mp hma) hapos
      case isTrue hownm =>
        rcases List.mem_append.mp hm with hold | hnew
        · exact rotation_le_largest hold hownm
        · rw [List.mem_singleton.mp hnew, hadded] at hma
          exact absurd (UInt32.le_zero_iff.mp hma) hapos

theorem lastRotation_eq_largest_iff (own : α → Prop) [DecidablePred own] (entries : List α)
    (hadded : rotation added = 0) :
    lastRotation rotation own (entries ++ [added]) = largestRotation rotation own entries ↔
      largestRotation rotation own entries ≠ 0 ∨ ∀ first ∈ entries.head?, rotation first = 0 := by
  rw [lastRotation_eq hadded]
  split
  case isFalse hpos => exact iff_of_true rfl (.inl hpos)
  case isTrue hzero =>
    rw [hzero]
    cases entries.head? <;> simp

end Largest

/-! ## The loop -/

section Loop

variable {existing : Bytes → Bool} {filename : UInt32 → Bytes} {last rotation : UInt32}

/-- The operation gets to the rotation that the loop has found. -/
theorem openRetry_tried {fuel : Nat} {tried : List UInt32}
    (h : triedRotations existing filename last fuel rotation = some tried) :
    openRetry last rotation (tried.map (answer existing filename)) =
      firstFree existing filename tried := by
  induction fuel generalizing rotation tried with
  | zero => cases h
  | succ fuel ih =>
    rw [triedRotations] at h
    split at h
    case isFalse hfree =>
      cases h
      simp [answer, hfree, openRetry, firstFree]
    case isTrue htaken =>
      split at h
      case isFalse hstop =>
        cases h
        simp [answer, htaken, openRetry, firstFree, hstop]
      case isTrue hretry =>
        obtain ⟨rest, hrest, rfl⟩ := Option.map_eq_some_iff.mp h
        have hfound := ih hrest
        simp only [firstFree] at hfound
        simp [answer, htaken, openRetry, firstFree, hretry, ← hfound]

theorem triedRotations_head {fuel : Nat} {tried : List UInt32}
    (h : triedRotations existing filename last fuel rotation = some tried) :
    tried.head? = some rotation := by
  cases fuel with
  | zero => cases h
  | succ fuel =>
    rw [triedRotations] at h
    split at h
    · split at h
      · obtain ⟨rest, -, rfl⟩ := Option.map_eq_some_iff.mp h
        rfl
      · cases h
        rfl
    · cases h
      rfl

/-- Where the comparison fails, the loop ends with this rotation. -/
theorem triedRotations_stop {fuel : Nat} {tried : List UInt32} (hstop : ¬rotation - 10 < last)
    (h : triedRotations existing filename last fuel rotation = some tried) :
    tried = [rotation] := by
  cases fuel with
  | zero => cases h
  | succ fuel =>
    rw [triedRotations, if_neg hstop, ite_self] at h
    exact (Option.some.inj h).symm

theorem upToFree_head (rotation : UInt32) (rest : List UInt32) :
    (upToFree existing filename (rotation :: rest)).head? = some rotation := by
  rw [upToFree]
  split <;> rfl

theorem firstFree_upToFree (rotations : List UInt32) :
    firstFree existing filename (upToFree existing filename rotations) =
      firstFree existing filename rotations := by
  induction rotations with
  | nil => rfl
  | cons rotation rest ih =>
    rw [upToFree]
    simp only [firstFree] at ih ⊢
    split
    case isTrue htaken => simpa [htaken] using ih
    case isFalse hfree => simp [hfree]

/-- The loop goes through rotations that are two apart as long as its comparison holds. -/
theorem triedRotations_chain {rest : List UInt32}
    (hchain : (rotation :: rest).IsChain fun r s => s = r + 2 ∧ r - 10 < last)
    (hend : ∀ r ∈ (rotation :: rest).getLast?, ¬r - 10 < last) :
    triedRotations existing filename last (rest.length + 1) rotation =
      some (upToFree existing filename (rotation :: rest)) := by
  induction rest generalizing rotation with
  | nil =>
    have hstop := hend rotation rfl
    rw [triedRotations, upToFree, if_neg hstop]
    split <;> rfl
  | cons next rest ih =>
    obtain ⟨⟨rfl, hretry⟩, hrest⟩ := List.isChain_cons_cons.mp hchain
    rw [triedRotations, upToFree, if_pos hretry]
    split
    · rw [List.length_cons, ih hrest (by simpa using hend)]
      rfl
    · rfl

end Loop

section Candidates

variable {existing : Bytes → Bool} {filename : UInt32 → Bytes} {last : UInt32}

/-- From nine on, the loop goes on up to the sixth candidate. -/
theorem candidates_chain (hlow : 9 ≤ last) (hhigh : last.toNat + 11 < 2 ^ 32) :
    (candidates last).IsChain (fun r s => s = r + 2 ∧ r - 10 < last) ∧
      ∀ r ∈ (candidates last).getLast?, ¬r - 10 < last := by
  have hretry : ∀ c : UInt32, 1 ≤ c.toNat → c.toNat ≤ 11 →
      (last + c - 10 < last ↔ c.toNat < 10) := by
    intro c hpos hc
    have hnine : (9 : UInt32).toNat = 9 := rfl
    have hten : (10 : UInt32).toNat = 10 := rfl
    rw [UInt32.le_iff_toNat_le, hnine] at hlow
    rw [UInt32.lt_iff_toNat_lt, UInt32.toNat_sub, UInt32.toNat_add, hten]
    omega
  have hlink : ∀ c : UInt32, 1 ≤ c.toNat → c.toNat < 10 →
      last + (c + 2) = last + c + 2 ∧ last + c - 10 < last := fun c hpos hc =>
    ⟨(UInt32.add_assoc _ _ _).symm, (hretry c hpos (by omega)).mpr hc⟩
  constructor
  · exact .cons_cons (hlink 1 (by decide) (by decide)) <|
      .cons_cons (hlink 3 (by decide) (by decide)) <|
      .cons_cons (hlink 5 (by decide) (by decide)) <|
      .cons_cons (hlink 7 (by decide) (by decide)) <|
      .cons_cons (hlink 9 (by decide) (by decide)) <| .singleton _
  · rintro r ⟨⟩
    exact (hretry 11 (by decide) (by decide)).not.mpr (by decide)

/-- Up to eight, the comparison fails on the first candidate. -/
theorem not_retry_of_small (hlow : last < 9) : ¬last + 1 - 10 < last := by
  have hnine : (9 : UInt32).toNat = 9 := rfl
  have hten : (10 : UInt32).toNat = 10 := rfl
  have hone : (1 : UInt32).toNat = 1 := rfl
  rw [UInt32.lt_iff_toNat_lt, hnine] at hlow
  rw [UInt32.lt_iff_toNat_lt, UInt32.toNat_sub, UInt32.toNat_add, hten, hone]
  omega

variable {α : Type} {rotation : α → UInt32} {own : α → Prop} [DecidablePred own] {entries : List α}
  {added : α} {create : List OpenOutcome → Plan} {register : Option UInt32 → Plan}

theorem triesCandidates_iff (hadded : rotation added = 0)
    (hbelow : (largestRotation rotation own entries).toNat + 11 < 2 ^ 32)
    (hcreate : ∀ opens, create opens =
      register (openRetry (lastRotation rotation own (entries ++ [added]))
        (lastRotation rotation own (entries ++ [added]) + 1) opens)) :
    TriesCandidates existing filename rotation own entries
        (lastRotation rotation own (entries ++ [added])) create register ↔
      RetryWorks existing filename rotation own entries := by
  have hlast := lastRotation_eq_largest_iff own entries hadded
  simp only [hcreate, TriesCandidates, RetryWorks]
  generalize largestRotation rotation own entries = largest at hlast hbelow ⊢
  generalize lastRotation rotation own (entries ++ [added]) = last at hlast ⊢
  rw [← hlast]
  constructor
  · rintro ⟨fuel, htried, -⟩
    have hhead := (triedRotations_head htried).symm.trans (upToFree_head _ _)
    obtain rfl : last = largest := (UInt32.add_left_inj 1).mp (Option.some.inj hhead)
    refine ⟨rfl, or_iff_not_imp_left.mpr fun hsmall => ?_⟩
    by_contra htaken
    have hone := triedRotations_stop (not_retry_of_small (UInt32.not_le.mp hsmall)) htried
    rw [candidates, upToFree, if_pos (by simpa using htaken)] at hone
    have hsecond : (upToFree existing filename [last + 3, last + 5, last + 7, last + 9,
        last + 11]).head? = some (last + 3) := upToFree_head _ _
    rw [(List.cons.inj hone).2] at hsecond
    cases hsecond
  · rintro ⟨rfl, hworks⟩
    have htried : ∃ fuel, triedRotations existing filename last fuel (last + 1) =
        some (upToFree existing filename (candidates last)) := by
      rcases hworks with hlow | hfree
      · obtain ⟨hchain, hend⟩ := candidates_chain hlow hbelow
        exact ⟨_, triedRotations_chain hchain hend⟩
      · refine ⟨1, ?_⟩
        simp [triedRotations, candidates, upToFree, hfree]
    obtain ⟨fuel, htried⟩ := htried
    exact ⟨fuel, htried, by rw [openRetry_tried htried, firstFree_upToFree]⟩

end Candidates

/-- The open retry loop of `create_record_container` does what it should. -/
def ContainerRotationTried (existing : Bytes → Bool) (filename : UInt32 → Bytes)
    (sinkId : FileSinkId) (cached : Contents) : Prop :=
  TriesCandidates existing filename RecordContainerMeta.rotation (fun rcm => rcm.sinkId = sinkId)
    cached.recordContainers
    (lastContainerRotation sinkId (cached.recordContainers ++ [⟨[], 0, sinkId, 0⟩]))
    (createRecordContainer filename sinkId · cached) (registerContainer filename sinkId cached)

/-- The open retry loop of `create_message_bus` does what it should. -/
def BusRotationTried (existing : Bytes → Bool) (filename : UInt32 → Bytes) (id magic : Bytes)
    (processId : UInt32) (cached : Contents) : Prop :=
  TriesCandidates existing filename MessageBusMeta.rotation (fun mbm => mbm.id = id)
    cached.messageBuses (lastBusRotation id
      (cached.messageBuses ++ [⟨[], magic, id, 0, processId⟩]))
    (createMessageBus filename id magic processId · cached)
    (registerBus filename id magic processId cached)

/-- Containers and buses get the first free one of six rotations exactly if the entries lead to the
right one and there is a retry where it is needed. -/
theorem rotations_tried_iff (existing : Bytes → Bool) (filename : UInt32 → Bytes)
    (cached : Contents) :
    (∀ sinkId : FileSinkId, (largestRotation RecordContainerMeta.rotation
        (fun rcm => rcm.sinkId = sinkId) cached.recordContainers).toNat + 11 < 2 ^ 32 →
      (ContainerRotationTried existing filename sinkId cached ↔
        RetryWorks existing filename RecordContainerMeta.rotation (fun rcm => rcm.sinkId = sinkId)
          cached.recordContainers)) ∧
    ∀ id magic processId, (largestRotation MessageBusMeta.rotation (fun mbm => mbm.id = id)
        cached.messageBuses).toNat + 11 < 2 ^ 32 →
      (BusRotationTried existing filename id magic processId cached ↔
        RetryWorks existing filename MessageBusMeta.rotation (fun mbm => mbm.id = id)
          cached.messageBuses) := by
  constructor
  · intro sinkId hbelow
    refine triesCandidates_iff rfl hbelow fun opens => ?_
    simp only [createRecordContainer, lastContainerRotation_eq]
    split
    case h_1 hnone => rw [hnone]; rfl
    case h_2 rotation hsome => rw [hsome]; rfl
  · intro id magic processId hbelow
    refine triesCandidates_iff rfl hbelow fun opens => ?_
    simp only [createMessageBus, lastBusRotation_eq]
    split
    case h_1 hnone => rw [hnone]; rfl
    case h_2 rotation hsome => rw [hsome]; rfl

/-- A name that consists of the rotation. -/
def shortName (rotation : UInt32) : Bytes := [rotation.toUInt8]

/-- With the rotation 12 registered, 13 taken and 15 free, there is one retry. The bus is the
first one. -/
theorem rotations_tried_iff_sample :
    ContainerRotationTried (· = shortName 13) shortName 0
      { recordContainers := [⟨[], 0, 7, 40⟩, ⟨[], 0, 0, 12⟩] } ∧
    BusRotationTried (· = shortName 13) shortName [] [] 0 {} :=
  ⟨((rotations_tried_iff _ _ _).1 0 (by decide)).mpr ⟨.inl (by decide), .inl (by decide)⟩,
    ((rotations_tried_iff _ _ _).2 [] [] 0 (by decide)).mpr ⟨.inr nofun, .inr (by decide)⟩⟩

/-- In an empty database, an existing file of the first rotation is not got around. -/
theorem rotations_not_tried : ¬∀ (existing : Bytes → Bool) (filename : UInt32 → Bytes)
    (cached : Contents) (sinkId : FileSinkId), (largestRotation RecordContainerMeta.rotation
        (fun rcm => rcm.sinkId = sinkId) cached.recordContainers).toNat + 11 < 2 ^ 32 →
      ContainerRotationTried existing filename sinkId cached := by
  intro hall
  have hworks := ((rotations_tried_iff _ _ _).1 0 (by decide)).mp
    (hall (· = shortName 1) shortName {} 0 (by decide))
  exact absurd hworks.2 (by decide)

end Deeplog.Database

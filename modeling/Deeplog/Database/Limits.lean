import Mathlib.Algebra.Order.BigOperators.Group.List
import Mathlib.Order.Bounds.Basic
import Deeplog.Database.Operations

/-!
# Pruning by limits

`prune_record_containers(file_database_limits)` goes from the newest container to the oldest and
keeps the files until one of the limits has been reached. The number of files is compared with its
limit before the file at hand has been counted, so that one file more than allowed is kept unless
there are no more, or the sizes have reached their own limit by then.
-/

namespace Deeplog.Database

section Spec

variable (page : Pages) (file : Nat → ContainerFile)

/-- The space of a container that can be opened and locked, in whole pages. -/
def occupied (visited : RecordContainerMeta × Nat) : Option Nat :=
  match file visited.2 with
  | .available extent _ =>
    some (page.roundUp (sanitizeContainerByteSize extent visited.1).byteSize)
  | _ => none

/-- The sizes of the containers that can be opened and locked, the newest one first. -/
def availableSizes (visited : List (RecordContainerMeta × Nat)) : List Nat :=
  (visited.filterMap (occupied page file)).reverse

/-- The entries that are left if the newest `k` of the available files are kept. -/
def keepRun (k : Nat) : List (RecordContainerMeta × Nat) → List RecordContainerMeta
  | [] => []
  | visited :: newer =>
    match file visited.2 with
    | .missing => keepRun k newer
    | .unavailable => visited.1 :: keepRun k newer
    | .available extent _ =>
      if (availableSizes page file newer).length < k then
        sanitizeContainerByteSize extent visited.1 :: keepRun k newer
      else keepRun k newer

/-- The entries that have a path. -/
def named (containers : List RecordContainerMeta) : List RecordContainerMeta :=
  containers.filter (·.path ≠ [])

/-- The entries whose files are unlinked then. -/
def unlinkBehind (k : Nat) : List (RecordContainerMeta × Nat) → List RecordContainerMeta
  | [] => []
  | visited :: newer =>
    match file visited.2 with
    | .available _ _ =>
      if (availableSizes page file newer).length < k then unlinkBehind k newer
      else visited.1 :: unlinkBehind k newer
    | _ => unlinkBehind k newer

/-- The newest `k` files are not too many, and those newer than any of them leave room for it. -/
structure IsRun (maxFiles : UInt32) (globalSize : UInt64) (sizes : List Nat) (k : Nat) : Prop where
  available : k ≤ sizes.length
  count : k ≤ maxFiles.toNat
  room : ∀ i < k, (sizes.take i).sum < globalSize.toNat

variable (maxFiles : UInt32) (globalSize : UInt64)

/-- The longest run of newest containers is kept, everything older that is available is unlinked,
and what is missing is forgotten. -/
def KeepsNewest (cached : Contents) : Prop :=
  ∃ k, IsGreatest
      {k | IsRun maxFiles globalSize
        (availableSizes page file cached.recordContainers.zipIdx) k} k ∧
    (pruneRecordContainers page maxFiles globalSize file cached).stores.map (·.recordContainers) =
      [keepRun page file k cached.recordContainers.zipIdx] ∧
    (visitContainers page maxFiles globalSize file cached.recordContainers).unlinked =
      unlinkBehind page file k cached.recordContainers.zipIdx

/-- There is a run that takes all files, or that ends because the sum of its sizes, in 64 bits,
has reached the limit. -/
def LimitsSettle (sizes : List Nat) : Prop :=
  ∃ k, IsRun maxFiles globalSize sizes k ∧
    (k = sizes.length ∨ globalSize.toNat ≤ (sizes.take k).sum % 2 ^ 64)

end Spec

section

variable {page : Pages} {file : Nat → ContainerFile} {maxFiles : UInt32} {globalSize : UInt64}
  {visited : RecordContainerMeta × Nat} {newer : List (RecordContainerMeta × Nat)}

/-- The space is the least that holds the container, if that has 32 bits. -/
theorem occupied_isRoundedUp {size : Nat} (h : occupied page file visited = some size) :
    ∃ extent prune, file visited.2 = .available extent prune ∧
      ((sanitizeContainerByteSize extent visited.1).byteSize.toNat + page.size ≤ 2 ^ 32 →
        Rounding.IsRoundedUp (sanitizeContainerByteSize extent visited.1).byteSize.toNat page.size
          size) := by
  unfold occupied at h
  split at h
  case h_1 extent prune hfile =>
    cases h
    exact ⟨extent, prune, hfile, fun hfits => page.roundUpP2.isRoundedUp hfits⟩
  case h_2 => cases h

theorem availableSizes_cons :
    availableSizes page file (visited :: newer) =
      availableSizes page file newer ++ (occupied page file visited).toList := by
  unfold availableSizes
  cases h : occupied page file visited with
  | none => simp [List.filterMap_cons_none h]
  | some size => simp [List.filterMap_cons_some h]

theorem availableSizes_cons_of_none (h : occupied page file visited = none) :
    availableSizes page file (visited :: newer) = availableSizes page file newer := by
  simp [availableSizes_cons, h]

theorem length_unlinkBehind (k : Nat) (all : List (RecordContainerMeta × Nat)) :
    (unlinkBehind page file k all).length = (availableSizes page file all).length - k := by
  induction all with
  | nil => simp [unlinkBehind, availableSizes]
  | cons visited newer ih =>
    rw [availableSizes_cons, unlinkBehind, occupied]
    cases file visited.2 with
    | missing => simpa using ih
    | unavailable => simpa using ih
    | available extent prune =>
      simp only [Option.toList_some, List.length_append, List.length_singleton]
      split_ifs
      · omega
      · rw [List.length_cons]
        omega

/-- A run that takes all files is the same whatever more it might take. -/
theorem keepRun_of_le {all : List (RecordContainerMeta × Nat)} (k k' : Nat)
    (hk : (availableSizes page file all).length ≤ k)
    (hk' : (availableSizes page file all).length ≤ k') :
    keepRun page file k all = keepRun page file k' all ∧
      unlinkBehind page file k all = unlinkBehind page file k' all := by
  induction all with
  | nil => exact ⟨rfl, rfl⟩
  | cons visited newer ih =>
    rw [availableSizes_cons, occupied] at hk hk'
    rw [keepRun, keepRun, unlinkBehind, unlinkBehind]
    cases hfile : file visited.2 with
    | missing => exact ih (by simpa [hfile] using hk) (by simpa [hfile] using hk')
    | unavailable =>
      have := ih (by simpa [hfile] using hk) (by simpa [hfile] using hk')
      exact ⟨congrArg (visited.1 :: ·) this.1, this.2⟩
    | available extent prune =>
      simp only [hfile, Option.toList_some, List.length_append, List.length_singleton] at hk hk'
      have := ih (by omega) (by omega)
      dsimp only
      rw [if_pos (by omega), if_pos (by omega), if_pos (by omega), if_pos (by omega)]
      exact ⟨congrArg (_ :: ·) this.1, this.2⟩

theorem named_cons (rcm : RecordContainerMeta) (containers : List RecordContainerMeta) :
    named (rcm :: containers) =
      if rcm.path = [] then named containers else rcm :: named containers := by
  by_cases hpath : rcm.path = [] <;> simp [named, hpath]

theorem path_sanitize (extent : Option UInt64) (rcm : RecordContainerMeta) :
    (sanitizeContainerByteSize extent rcm).path = rcm.path :=
  congrArg Prod.fst (file_sanitize extent rcm)

/-- If files without a path are missing, all entries that are left have one. -/
theorem named_keepRun {all : List (RecordContainerMeta × Nat)} (k : Nat)
    (hnamed : ∀ visited ∈ all, visited.1.path = [] → file visited.2 = .missing) :
    named (keepRun page file k all) = keepRun page file k all := by
  induction all with
  | nil => rfl
  | cons visited newer ih =>
    obtain ⟨hvisited, hnewer⟩ := List.forall_mem_cons.mp hnamed
    have ih := ih hnewer
    rw [keepRun]
    cases hfile : file visited.2 with
    | missing => exact ih
    | unavailable =>
      have hpath : visited.1.path ≠ [] := fun h => by simp [hvisited h] at hfile
      simp only [named_cons, if_neg hpath, ih]
    | available extent prune =>
      have hpath : (sanitizeContainerByteSize extent visited.1).path ≠ [] := fun h => by
        simp [hvisited (path_sanitize extent visited.1 ▸ h)] at hfile
      dsimp only
      split_ifs
      · rw [named_cons, if_neg hpath, ih]
      · exact ih

/-! ## The loop -/

/-- The comparison in front of a file when `k` files have been kept. -/
def Stops (maxFiles : UInt32) (globalSize : UInt64) (sizes : List Nat) (k : Nat) : Prop :=
  maxFiles < .ofNat k ∨ globalSize ≤ .ofNat (sizes.take k).sum

/-- The loop has kept the newest `k` of the available files, and has gone on or not. -/
structure LimitState.Kept (page : Pages) (file : Nat → ContainerFile) (maxFiles : UInt32)
    (globalSize : UInt64) (all : List (RecordContainerMeta × Nat)) (k : Nat) (state : LimitState) :
    Prop where
  le : k ≤ (availableSizes page file all).length
  goes : ∀ i < k, ¬Stops maxFiles globalSize (availableSizes page file all) i
  stops : k < (availableSizes page file all).length →
    Stops maxFiles globalSize (availableSizes page file all) k
  numFiles : state.numFiles = .ofNat k
  accumulatedSize : state.accumulatedSize = .ofNat ((availableSizes page file all).take k).sum
  kept : state.kept = named (keepRun page file k all)
  unlinked : state.unlinked = unlinkBehind page file k all

/-- A file that cannot be opened and locked does not count. -/
theorem LimitState.Kept.uncounted {k : Nat} {state state' : LimitState}
    (h : state.Kept page file maxFiles globalSize newer k)
    (hnone : occupied page file visited = none)
    (htotals : state'.numFiles = state.numFiles ∧ state'.accumulatedSize = state.accumulatedSize)
    (hkept : state'.kept = named (keepRun page file k (visited :: newer)))
    (hunlinked : state'.unlinked = unlinkBehind page file k (visited :: newer)) :
    state'.Kept page file maxFiles globalSize (visited :: newer) k := by
  have hsizes : availableSizes page file (visited :: newer) = availableSizes page file newer :=
    availableSizes_cons_of_none hnone
  refine ⟨hsizes ▸ h.le, hsizes ▸ h.goes, hsizes ▸ h.stops, ?_, hsizes ▸ ?_, hkept, hunlinked⟩
  · exact htotals.1.trans h.numFiles
  · exact htotals.2.trans h.accumulatedSize

/-- Whether the loop has gone on so far does not depend on an older file. -/
theorem stops_append {sizes : List Nat} {i : Nat} (hi : i ≤ sizes.length) (size : Nat) :
    Stops maxFiles globalSize (sizes ++ [size]) i ↔ Stops maxFiles globalSize sizes i := by
  rw [Stops, Stops, List.take_append_of_le_length hi]

/-- The limits have been reached in front of the file. -/
theorem LimitState.Kept.stopped {k size : Nat} {state state' : LimitState}
    (h : state.Kept page file maxFiles globalSize newer k)
    (hsize : occupied page file visited = some size)
    (hstop : Stops maxFiles globalSize (availableSizes page file newer) k)
    (htotals : state'.numFiles = state.numFiles ∧ state'.accumulatedSize = state.accumulatedSize)
    (hkept : state'.kept = named (keepRun page file k (visited :: newer)))
    (hunlinked : state'.unlinked = unlinkBehind page file k (visited :: newer)) :
    state'.Kept page file maxFiles globalSize (visited :: newer) k := by
  have hsizes : availableSizes page file (visited :: newer) =
      availableSizes page file newer ++ [size] := by
    rw [availableSizes_cons, hsize]
    rfl
  have hle := h.le
  constructor
  · rw [hsizes, List.length_append]
    omega
  · intro i hi
    rw [hsizes, stops_append (hi.le.trans hle)]
    exact h.goes i hi
  · intro _
    rwa [hsizes, stops_append hle]
  · exact htotals.1.trans h.numFiles
  · rw [hsizes, List.take_append_of_le_length hle]
    exact htotals.2.trans h.accumulatedSize
  · exact hkept
  · exact hunlinked

/-- The limits have not been reached, and neither have they in front of any newer file. -/
theorem LimitState.Kept.all_kept {k : Nat} {state : LimitState}
    (h : state.Kept page file maxFiles globalSize newer k)
    (hgoes : ¬Stops maxFiles globalSize (availableSizes page file newer) k) :
    k = (availableSizes page file newer).length :=
  h.le.antisymm (Nat.le_of_not_lt fun hlt => hgoes (h.stops hlt))

theorem LimitState.Kept.counted {k size : Nat} {state state' : LimitState}
    (h : state.Kept page file maxFiles globalSize newer k)
    (hsize : occupied page file visited = some size)
    (hgoes : ¬Stops maxFiles globalSize (availableSizes page file newer) k)
    (hnum : state'.numFiles = state.numFiles + 1)
    (hsum : state'.accumulatedSize = state.accumulatedSize + .ofNat size)
    (hkept : state'.kept = named (keepRun page file (k + 1) (visited :: newer)))
    (hunlinked : state'.unlinked = unlinkBehind page file (k + 1) (visited :: newer)) :
    state'.Kept page file maxFiles globalSize (visited :: newer) (k + 1) := by
  have hsizes : availableSizes page file (visited :: newer) =
      availableSizes page file newer ++ [size] := by
    rw [availableSizes_cons, hsize]
    rfl
  have hk := h.all_kept hgoes
  have hlen : (availableSizes page file (visited :: newer)).length = k + 1 := by
    rw [hsizes, List.length_append, List.length_singleton, hk]
  constructor
  · exact hlen.ge
  · intro i hi
    rw [hsizes, stops_append (by omega)]
    rcases Nat.lt_or_eq_of_le (Nat.le_of_lt_succ hi) with hlt | rfl
    · exact h.goes i hlt
    · exact hgoes
  · intro hlt
    omega
  · rw [hnum, h.numFiles, UInt32.ofNat_add]
    rfl
  · rw [hsum, h.accumulatedSize, hk, List.take_length, ← hk, ← hlen, List.take_length, hsizes,
      List.sum_append, List.sum_singleton, UInt64.ofNat_add]
  · exact hkept
  · exact hunlinked

theorem LimitState.Kept.visit {k : Nat} {state : LimitState}
    (h : state.Kept page file maxFiles globalSize newer k) :
    ∃ k', (state.visit page maxFiles globalSize file visited).Kept page file maxFiles globalSize
      (visited :: newer) k' := by
  cases hfile : file visited.2 with
  | missing =>
    refine ⟨k, h.uncounted (by simp [occupied, hfile]) ?_ ?_ ?_⟩
    all_goals simp only [LimitState.visit, keepRun, unlinkBehind, hfile]
    exacts [⟨trivial, trivial⟩, h.kept, h.unlinked]
  | unavailable =>
    refine ⟨k, h.uncounted (by simp [occupied, hfile]) ?_ ?_ ?_⟩
    all_goals simp only [LimitState.visit, keepRun, unlinkBehind, hfile]
    exacts [⟨trivial, trivial⟩, by rw [named_cons, h.kept], h.unlinked]
  | available extent prune =>
    have hsize : occupied page file visited =
        some (page.roundUp (sanitizeContainerByteSize extent visited.1).byteSize) := by
      rw [occupied, hfile]
    have htest : maxFiles < state.numFiles ∨ globalSize ≤ state.accumulatedSize ↔
        Stops maxFiles globalSize (availableSizes page file newer) k := by
      rw [h.numFiles, h.accumulatedSize, Stops]
    by_cases hstop : Stops maxFiles globalSize (availableSizes page file newer) k
    · refine ⟨k, h.stopped hsize hstop ?_ ?_ ?_⟩
      all_goals simp only [LimitState.visit, keepRun, unlinkBehind, hfile, if_pos (htest.mpr hstop),
        if_neg (Nat.not_lt.mpr h.le)]
      exacts [⟨trivial, trivial⟩, h.kept, congrArg _ h.unlinked]
    · have hk := h.all_kept hstop
      have hrest := keepRun_of_le k (k + 1) hk.ge (hk.ge.trans k.le_succ)
      refine ⟨k + 1, h.counted hsize hstop ?_ ?_ ?_ ?_⟩
      all_goals simp only [LimitState.visit, keepRun, unlinkBehind, hfile,
        if_neg (htest.not.mpr hstop), if_pos (Nat.lt_succ_of_le hk.ge)]
      · rw [named_cons, h.kept, hrest.1]
      · rw [h.unlinked, hrest.2]

theorem visitContainers_kept (page : Pages) (maxFiles : UInt32) (globalSize : UInt64)
    (file : Nat → ContainerFile) (all : List (RecordContainerMeta × Nat)) :
    ∃ k, (all.foldr (LimitState.visit page maxFiles globalSize file) {}).Kept page file maxFiles
      globalSize all k := by
  induction all with
  | nil => exact ⟨0, le_rfl, nofun, nofun, rfl, rfl, rfl, rfl⟩
  | cons visited newer ih =>
    obtain ⟨k, hk⟩ := ih
    exact hk.visit

/-! ## The runs -/

variable {sizes : List Nat} {k k' : Nat}

/-- In front of a file of a run, nothing has wrapped and no limit has been reached. -/
theorem IsRun.not_stops (h : IsRun maxFiles globalSize sizes k) {i : Nat} (hi : i < k) :
    ¬Stops maxFiles globalSize sizes i := by
  have hcount := h.count
  have hroom := h.room i hi
  have hmax := maxFiles.toNat_lt
  have hglobal := globalSize.toNat_lt
  rw [Stops, UInt32.lt_iff_toNat_lt, UInt64.le_iff_toNat_le, UInt32.toNat_ofNat',
    UInt64.toNat_ofNat', Nat.mod_eq_of_lt (by omega), Nat.mod_eq_of_lt (by omega)]
  omega

/-- Behind a run, only the limit of the sizes ends the loop. -/
theorem IsRun.stops_iff (h : IsRun maxFiles globalSize sizes k) :
    Stops maxFiles globalSize sizes k ↔ globalSize.toNat ≤ (sizes.take k).sum % 2 ^ 64 := by
  have hcount := h.count
  have hmax := maxFiles.toNat_lt
  rw [Stops, UInt32.lt_iff_toNat_lt, UInt64.le_iff_toNat_le, UInt32.toNat_ofNat',
    UInt64.toNat_ofNat', Nat.mod_eq_of_lt (a := k) (by omega)]
  omega

/-- A run that ends at the size limit cannot be made longer. -/
theorem IsRun.isGreatest (h : IsRun maxFiles globalSize sizes k)
    (hend : k = sizes.length ∨ globalSize.toNat ≤ (sizes.take k).sum % 2 ^ 64) :
    IsGreatest {k | IsRun maxFiles globalSize sizes k} k := by
  refine ⟨h, fun j hj => Nat.le_of_not_lt fun hlt => ?_⟩
  rcases hend with rfl | hfull
  · have := hj.available
    omega
  · have := hj.room k hlt
    have := Nat.mod_le (sizes.take k).sum (2 ^ 64)
    omega

theorem sum_take_mono (sizes : List Nat) {i j : Nat} (h : i ≤ j) :
    (sizes.take i).sum ≤ (sizes.take j).sum :=
  (List.take_sublist_take_left h).sum_le_sum fun _ _ => Nat.zero_le _

/-- With less than 16 EiB, it is the number of the files that is compared with its limit, and the
sum of the newest ones that still may be kept. -/
theorem limitsSettle_iff_of_sum_lt (hsum : sizes.sum < 2 ^ 64) :
    LimitsSettle maxFiles globalSize sizes ↔
      sizes.length ≤ maxFiles.toNat ∨ globalSize.toNat ≤ (sizes.take maxFiles.toNat).sum := by
  have hmod : ∀ k, (sizes.take k).sum % 2 ^ 64 = (sizes.take k).sum := fun k =>
    Nat.mod_eq_of_lt <| Nat.lt_of_le_of_lt
      ((List.take_sublist k sizes).sum_le_sum fun _ _ => Nat.zero_le _) hsum
  constructor
  · rintro ⟨k, hrun, rfl | hfull⟩
    · exact .inl hrun.count
    · exact .inr ((hmod k ▸ hfull).trans (sum_take_mono sizes hrun.count))
  · intro h
    -- the first place where one of the three ends a run
    have hends : ∃ k, sizes.length ≤ k ∨ maxFiles.toNat ≤ k ∨
        globalSize.toNat ≤ (sizes.take k).sum :=
      ⟨sizes.length, .inl le_rfl⟩
    obtain ⟨k, hk, hfirst⟩ : ∃ k, (sizes.length ≤ k ∨ maxFiles.toNat ≤ k ∨
        globalSize.toNat ≤ (sizes.take k).sum) ∧ ∀ i < k, ¬(sizes.length ≤ i ∨ maxFiles.toNat ≤ i ∨
          globalSize.toNat ≤ (sizes.take i).sum) :=
      ⟨Nat.find hends, Nat.find_spec hends, fun i hi => Nat.find_min hends hi⟩
    have hle : ∀ n, (∀ i < k, i < n) → k ≤ n := fun n hn =>
      Nat.le_of_not_lt fun hlt => absurd (hn n hlt) (Nat.lt_irrefl n)
    have hrun : IsRun maxFiles globalSize sizes k := by
      refine ⟨hle _ fun i hi => ?_, hle _ fun i hi => ?_, fun i hi => ?_⟩
      all_goals
        have := hfirst i hi
        omega
    refine ⟨k, hrun, ?_⟩
    rw [hmod]
    have havailable := hrun.available
    rcases hk with hk | hk | hk
    · exact .inl (by omega)
    · obtain rfl : k = maxFiles.toNat := Nat.le_antisymm hrun.count hk
      exact h.imp_left fun h => by omega
    · exact .inr hk

/-- The loop keeps the longest run exactly if it is the size limit or the lack of files that ends
it. -/
theorem prune_limits_iff (page : Pages) (maxFiles : UInt32) (globalSize : UInt64)
    (file : Nat → ContainerFile) (cached : Contents)
    (hnamed : ∀ visited ∈ cached.recordContainers.zipIdx, visited.1.path = [] →
      file visited.2 = .missing) :
    KeepsNewest page file maxFiles globalSize cached ↔
      LimitsSettle maxFiles globalSize
        (availableSizes page file cached.recordContainers.zipIdx) := by
  obtain ⟨k, hkept⟩ := visitContainers_kept page maxFiles globalSize file
    cached.recordContainers.zipIdx
  constructor
  · rintro ⟨longest, hlongest, -, hunlinked⟩
    have hlen := congrArg List.length (hkept.unlinked.symm.trans hunlinked)
    rw [length_unlinkBehind, length_unlinkBehind] at hlen
    have hle := hkept.le
    have hle' := hlongest.1.available
    obtain rfl : k = longest := by omega
    refine ⟨k, hlongest.1, (Nat.eq_or_lt_of_le hle).imp_right fun hlt => ?_⟩
    exact hlongest.1.stops_iff.mp (hkept.stops hlt)
  · rintro ⟨longest, hrun, hend⟩
    have hlongest : k = longest := by
      refine Nat.le_antisymm (Nat.le_of_not_lt fun hlt => ?_) (Nat.le_of_not_lt fun hlt => ?_)
      · rcases hend with rfl | hfull
        · exact absurd hkept.le (Nat.not_le.mpr hlt)
        · exact hkept.goes longest hlt (hrun.stops_iff.mpr hfull)
      · exact hrun.not_stops hlt (hkept.stops (hlt.trans_le hrun.available))
    subst hlongest
    have hleft := hkept.kept.trans (named_keepRun k hnamed)
    exact ⟨k, hrun.isGreatest hend, congrArg (fun kept => [kept]) hleft, hkept.unlinked⟩

end

/-- A container of the default sink with 100 bytes. -/
def smallContainer (rotation : UInt32) : RecordContainerMeta := ⟨[0x61], 100, 0, rotation⟩

/-- Pages of 4 KiB. -/
def samplePages : Pages := ⟨12, .exact⟩

/-- Two files may be kept; the third one is locked, the last one has been deleted. -/
theorem prune_limits_iff_sample : KeepsNewest samplePages (fun i =>
      if i = 2 then .unavailable else if i = 3 then .missing else .available (some 100) false)
    2 0x10000 { recordContainers := [1, 2, 3, 4].map smallContainer } := by
  refine (prune_limits_iff samplePages 2 0x10000 _ _ (by simp [smallContainer])).mpr
    ⟨2, ⟨?_, ?_, ?_⟩, .inl ?_⟩
  all_goals decide

/-- Two files are kept where one is allowed. -/
theorem prune_limits_not : ¬∀ (page : Pages) (maxFiles : UInt32) (globalSize : UInt64)
    (file : Nat → ContainerFile) (cached : Contents),
    (∀ visited ∈ cached.recordContainers.zipIdx, visited.1.path = [] →
      file visited.2 = .missing) →
    KeepsNewest page file maxFiles globalSize cached := by
  intro hall
  have hkeeps := hall samplePages 1 0xffffffffffffffff (fun _ => .available (some 100) false)
    { recordContainers := [1, 2].map smallContainer } (by simp [smallContainer])
  have hsettle := (limitsSettle_iff_of_sum_lt (by decide)).mp
    ((prune_limits_iff _ _ _ _ _ (by simp [smallContainer])).mp hkeeps)
  exact absurd hsettle (by decide)

end Deeplog.Database

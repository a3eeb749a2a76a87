import Deeplog.Database.Handles
import Deeplog.Database.PlainCodec

/-!
# The keys of the entries

A container is known by its sink and rotation, a bus by its id and rotation. A new rotation comes
behind the greatest one of its kind. Where there is none of the kind, the projected maximum is the
first entry, and the new rotation comes behind an unrelated one, which does no harm. Whatever
contents a handle has got hold of, up to date or not, have unique keys, and so has what it stores.
-/

namespace Deeplog.Database

def RecordContainerMeta.key (rcm : RecordContainerMeta) : FileSinkId × UInt32 :=
  (rcm.sinkId, rcm.rotation)

def MessageBusMeta.key (mbm : MessageBusMeta) : Bytes × UInt32 := (mbm.id, mbm.rotation)

namespace Contents

def containerKeys (c : Contents) : List (FileSinkId × UInt32) :=
  c.recordContainers.map RecordContainerMeta.key

def busKeys (c : Contents) : List (Bytes × UInt32) := c.messageBuses.map MessageBusMeta.key

/-- What is to hold of contents that have been fetched. -/
structure UniqueKeys (c : Contents) : Prop where
  containers : c.containerKeys.Nodup
  buses : c.busKeys.Nodup
  container_rotation : ∀ rcm ∈ c.recordContainers, 1 ≤ rcm.rotation
  bus_rotation : ∀ mbm ∈ c.messageBuses, 1 ≤ mbm.rotation

/-- Contents as they may be stored: some buses may have been marked as erased. -/
structure Keyed (c : Contents) : Prop where
  containers : c.containerKeys.Nodup
  container_rotation : ∀ rcm ∈ c.recordContainers, rcm.rotation ≠ 0
  buses : (c.liveBuses.map MessageBusMeta.key).Nodup

/-- Rotations that leave room for the retries. -/
def Below (c : Contents) : Prop :=
  (∀ rcm ∈ c.recordContainers, rcm.rotation.toNat < 2 ^ 32 - 12) ∧
    ∀ mbm ∈ c.messageBuses, mbm.rotation.toNat < 2 ^ 32 - 12

instance (c : Contents) : Decidable c.Below := inferInstanceAs (Decidable (_ ∧ _))

variable {c d : Contents}

theorem one_le_iff {rotation : UInt32} : 1 ≤ rotation ↔ rotation ≠ 0 := by
  rw [UInt32.le_iff_toNat_le, Ne, ← UInt32.toNat_inj]
  exact Nat.one_le_iff_ne_zero

theorem Keyed.of_entries (h : c.Keyed) (hsame : d.SameEntries c) : d.Keyed where
  containers := (hsame.1.map RecordContainerMeta.key).nodup_iff.mpr h.containers
  container_rotation rcm hrcm := h.container_rotation rcm (hsame.1.mem_iff.mp hrcm)
  buses := (hsame.2.map MessageBusMeta.key).nodup_iff.mpr h.buses

theorem Keyed.empty : Keyed {} := ⟨List.nodup_nil, nofun, List.nodup_nil⟩

/-- Without the buses that have been erased, the keys are unique. -/
theorem Keyed.unique (h : c.Keyed) (hlive : c.liveBuses = c.messageBuses) : c.UniqueKeys where
  containers := h.containers
  buses := by
    have hbuses := h.buses
    rwa [hlive] at hbuses
  container_rotation rcm hrcm := one_le_iff.mpr (h.container_rotation rcm hrcm)
  bus_rotation mbm hmbm := one_le_iff.mpr (rotation_ne_zero (hlive ▸ hmbm))

/-- Contents with fewer of the keys. -/
theorem Keyed.of_sublist (h : c.Keyed) (hcontainers : d.containerKeys.Sublist c.containerKeys)
    (hbuses : (d.liveBuses.map MessageBusMeta.key).Sublist (c.liveBuses.map MessageBusMeta.key)) :
    d.Keyed where
  containers := h.containers.sublist hcontainers
  container_rotation rcm hrcm := by
    obtain ⟨other, hother, hkey⟩ := List.mem_map.mp (hcontainers.subset (List.mem_map_of_mem hrcm))
    have hrotation : other.rotation = rcm.rotation := congrArg Prod.snd hkey
    exact hrotation ▸ h.container_rotation other hother
  buses := h.buses.sublist hbuses

/-- A new container has a rotation behind those of its sink. -/
theorem Keyed.add_container (h : c.Keyed) {added : RecordContainerMeta}
    (hne : added.rotation ≠ 0) (hnew : added.key ∉ c.containerKeys)
    (hcontainers : d.recordContainers = c.recordContainers ++ [added])
    (hbuses : d.messageBuses = c.messageBuses) : d.Keyed where
  containers := by
    rw [containerKeys, hcontainers, List.map_append]
    refine List.nodup_append.mpr ⟨h.containers, List.nodup_singleton _, ?_⟩
    rintro key hkey other hother rfl
    exact hnew (List.mem_singleton.mp hother ▸ hkey)
  container_rotation rcm hrcm := by
    rw [hcontainers] at hrcm
    rcases List.mem_append.mp hrcm with hold | hadded
    · exact h.container_rotation rcm hold
    · cases List.mem_singleton.mp hadded
      exact hne
  buses := by
    rw [liveBuses, hbuses]
    exact h.buses

theorem Keyed.add_bus (h : c.Keyed) (hlive : c.liveBuses = c.messageBuses) {added : MessageBusMeta}
    (hnew : added.key ∉ c.busKeys)
    (hcontainers : d.recordContainers = c.recordContainers)
    (hbuses : d.messageBuses = c.messageBuses ++ [added]) : d.Keyed where
  containers := by
    rw [containerKeys, hcontainers]
    exact h.containers
  container_rotation := by
    rw [hcontainers]
    exact h.container_rotation
  buses := by
    have hunique : ((c.messageBuses ++ [added]).map MessageBusMeta.key).Nodup := by
      rw [List.map_append]
      refine List.nodup_append.mpr ⟨hlive ▸ h.buses, List.nodup_singleton _, ?_⟩
      rintro key hkey other hother rfl
      exact hnew (List.mem_singleton.mp hother ▸ hkey)
    rw [liveBuses, hbuses]
    exact hunique.sublist (List.filter_sublist.map _)

/-- Fewer of the buses, none of which has been erased. -/
theorem Keyed.fewer_buses (h : c.Keyed) (hlive : c.liveBuses = c.messageBuses)
    (hcontainers : d.recordContainers = c.recordContainers)
    (hbuses : d.messageBuses.Sublist c.messageBuses) : d.Keyed := by
  refine h.of_sublist ?_ ?_
  · rw [containerKeys, hcontainers]
    exact .refl _
  · rw [hlive]
    exact (List.filter_sublist.trans hbuses).map _

theorem Keyed.fewer_containers (h : c.Keyed) (hcontainers : d.containerKeys.Sublist c.containerKeys)
    (hbuses : d.messageBuses = c.messageBuses) : d.Keyed := by
  refine h.of_sublist hcontainers ?_
  rw [liveBuses, hbuses]
  exact .refl _

end Contents

/-! ## The next rotation -/

section Rotation

variable {α : Type} {rotation : α → UInt32} {own : α → Prop} [DecidablePred own] {entries : List α}
  {a m : α} {proj : α → UInt32}

theorem foldl_max_spec (proj : α → UInt32) (x : α) (xs : List α) :
    (xs.foldl (fun best y => if proj best < proj y then y else best) x) ∈ x :: xs ∧
      ∀ y ∈ x :: xs, proj y ≤
        proj (xs.foldl (fun best y => if proj best < proj y then y else best) x) := by
  induction xs generalizing x with
  | nil => simp
  | cons y ys ih =>
    rw [List.foldl_cons]
    obtain ⟨hmem, hmax⟩ := ih (if proj x < proj y then y else x)
    constructor
    · rcases List.mem_cons.mp hmem with heq | hmem
      · rw [heq]
        split <;> simp
      · simp [hmem]
    · have hbest := hmax _ List.mem_cons_self
      intro z hz
      rcases List.mem_cons.mp hz with rfl | hz
      · refine UInt32.le_trans ?_ hbest
        grind
      · rcases List.mem_cons.mp hz with rfl | hz
        · refine UInt32.le_trans ?_ hbest
          grind
        · exact hmax z (List.mem_cons_of_mem _ hz)

theorem rangesMax_spec (h : rangesMax proj entries = some m) :
    m ∈ entries ∧ ∀ y ∈ entries, proj y ≤ proj m := by
  cases entries with
  | nil => cases h
  | cons x xs =>
    cases h
    exact foldl_max_spec proj x xs

/-- The rotation of the first greatest entry, where the others count as zero. -/
def lastRotation (rotation : α → UInt32) (own : α → Prop) [DecidablePred own]
    (entries : List α) : UInt32 :=
  ((rangesMax (fun a => if own a then rotation a else 0) entries).map rotation).getD 0

theorem lastContainerRotation_eq (sinkId : FileSinkId) (containers : List RecordContainerMeta) :
    lastContainerRotation sinkId containers =
      lastRotation RecordContainerMeta.rotation (fun rcm => rcm.sinkId = sinkId) containers := rfl

theorem lastBusRotation_eq (id : Bytes) (buses : List MessageBusMeta) :
    lastBusRotation id buses =
      lastRotation MessageBusMeta.rotation (fun mbm => mbm.id = id) buses := rfl

theorem rotation_le_last (ha : a ∈ entries) (hown : own a) :
    rotation a ≤ lastRotation rotation own entries := by
  rw [lastRotation]
  cases hmax : rangesMax (fun a => if own a then rotation a else 0) entries with
  | none =>
    cases entries with
    | nil => cases ha
    | cons x xs => cases hmax
  | some m =>
    obtain ⟨-, hle⟩ := rangesMax_spec hmax
    have hma := hle a ha
    simp only [hown, if_true] at hma
    simp only [Option.map_some, Option.getD_some]
    split at hma
    · exact hma
    · -- an unrelated entry is greatest only if there are no rotations of the kind
      rw [UInt32.le_zero_iff.mp hma]
      exact UInt32.zero_le

theorem lastRotation_lt {limit : Nat} (hpos : 0 < limit)
    (h : ∀ a ∈ entries, (rotation a).toNat < limit) :
    (lastRotation rotation own entries).toNat < limit := by
  rw [lastRotation]
  cases hmax : rangesMax (fun a => if own a then rotation a else 0) entries with
  | none => exact hpos
  | some m => exact h m (rangesMax_spec hmax).1

end Rotation

/-- The file that is created at last has a rotation behind the last one. -/
theorem openRetry_lt {last rotation r : UInt32} {opens : List OpenOutcome}
    (hlast : last.toNat < 2 ^ 32 - 12) (hlow : last < rotation)
    (hhigh : rotation.toNat ≤ last.toNat + 11) (h : openRetry last rotation opens = some r) :
    last < r := by
  induction opens generalizing rotation with
  | nil => cases h
  | cons outcome opens ih =>
    cases outcome with
    | opened =>
      cases h
      exact hlow
    | failed => cases h
    | fileExists =>
      simp only [openRetry] at h
      split at h
      case isFalse => cases h
      case isTrue hretry =>
        have htwo : (2 : UInt32).toNat = 2 := rfl
        have hten : (10 : UInt32).toNat = 10 := rfl
        rw [UInt32.lt_iff_toNat_lt, UInt32.toNat_sub, hten] at hretry
        rw [UInt32.lt_iff_toNat_lt] at hlow
        have hnext : (rotation + 2).toNat = rotation.toNat + 2 := by
          rw [UInt32.toNat_add, htwo]
          exact Nat.mod_eq_of_lt (by omega)
        refine ih ?_ ?_ h
        · rw [UInt32.lt_iff_toNat_lt, hnext]
          omega
        · rw [hnext]
          omega

section Fresh

variable {α : Type} {rotation : α → UInt32} {own : α → Prop} [DecidablePred own] {entries : List α}
  {added : α} {r : UInt32}

theorem toNat_succ {last : UInt32} (hlast : last.toNat < 2 ^ 32 - 12) :
    (last + 1).toNat = last.toNat + 1 := by
  have hone : (1 : UInt32).toNat = 1 := rfl
  rw [UInt32.toNat_add, hone]
  exact Nat.mod_eq_of_lt (by omega)

theorem lt_succ {last : UInt32} (hlast : last.toNat < 2 ^ 32 - 12) : last < last + 1 := by
  rw [UInt32.lt_iff_toNat_lt, toNat_succ hlast]
  exact Nat.lt_succ_self _

/-- A rotation behind the last one is new for the sink or bus. -/
theorem fresh_of_lt (hlast : lastRotation rotation own (entries ++ [added]) < r) :
    r ≠ 0 ∧ ∀ a ∈ entries, own a → rotation a ≠ r := by
  constructor
  · rintro rfl
    exact UInt32.not_lt_zero hlast
  · rintro a ha hown rfl
    exact UInt32.not_lt.mpr (rotation_le_last (List.mem_append_left _ ha) hown) hlast

theorem lastRotation_added (own : α → Prop) [DecidablePred own] (hadded : rotation added = 0)
    (hbelow : ∀ a ∈ entries, (rotation a).toNat < 2 ^ 32 - 12) :
    (lastRotation rotation own (entries ++ [added])).toNat < 2 ^ 32 - 12 := by
  refine lastRotation_lt (by omega) fun a ha => ?_
  rcases List.mem_append.mp ha with hold | hnew
  · exact hbelow a hold
  · rw [List.mem_singleton.mp hnew, hadded]
    exact Nat.zero_lt_succ _

theorem openRetry_fresh (hadded : rotation added = 0)
    (hbelow : ∀ a ∈ entries, (rotation a).toNat < 2 ^ 32 - 12) {opens : List OpenOutcome}
    (h : openRetry (lastRotation rotation own (entries ++ [added]))
      (lastRotation rotation own (entries ++ [added]) + 1) opens = some r) :
    r ≠ 0 ∧ ∀ a ∈ entries, own a → rotation a ≠ r := by
  have hlast := lastRotation_added own hadded hbelow
  have hnext := toNat_succ hlast
  exact fresh_of_lt (openRetry_lt hlast (lt_succ hlast) (by omega) h)

end Fresh

namespace Contents

variable {c : Contents}

theorem Below.nextRotation_fresh (h : c.Below) (sinkId : FileSinkId) :
    nextRotation (c.recordContainers ++ [⟨[], 0, sinkId, 0⟩]) sinkId ≠ 0 ∧
      (sinkId, nextRotation (c.recordContainers ++ [⟨[], 0, sinkId, 0⟩]) sinkId) ∉
        c.containerKeys := by
  have hadded : RecordContainerMeta.rotation ⟨[], 0, sinkId, 0⟩ = 0 := rfl
  rw [nextRotation, lastContainerRotation_eq, UInt32.add_comm]
  have hlast := lastRotation_added (fun rcm => rcm.sinkId = sinkId) hadded h.1
  have hlt := lt_succ hlast
  obtain ⟨hne, hfresh⟩ := fresh_of_lt hlt
  refine ⟨hne, fun hmem => ?_⟩
  obtain ⟨rcm, hrcm, hkey⟩ := List.mem_map.mp hmem
  obtain ⟨hid, hrotation⟩ := Prod.mk.inj hkey
  exact hfresh rcm hrcm hid hrotation

end Contents

/-! ## Operations -/

section

variable {base c : Contents} {op : Operation}

theorem key_sanitize (extent : Option UInt64) (rcm : RecordContainerMeta) :
    (sanitizeContainerByteSize extent rcm).key = rcm.key :=
  congrArg Prod.snd (file_sanitize extent rcm)

theorem filterMap_keys {α β κ : Type} (key : β → κ) (keep : α → Option β) (old : α → κ)
    (hkeep : ∀ a b, keep a = some b → key b = old a) (as : List α) :
    ((as.filterMap keep).map key).Sublist (as.map old) := by
  induction as with
  | nil => exact .slnil
  | cons a as ih =>
    rw [List.filterMap_cons, List.map_cons]
    split
    case h_1 => exact ih.cons _
    case h_2 b hb =>
      rw [List.map_cons, hkeep a b hb]
      exact ih.cons_cons _

theorem visit_keys {page : Pages} {maxFiles : UInt32} {globalSize : UInt64}
    {file : Nat → ContainerFile}
    (visited : List (RecordContainerMeta × Nat)) :
    ((visited.foldr (LimitState.visit page maxFiles globalSize file) {}).kept.map
      RecordContainerMeta.key).Sublist (visited.map fun v => v.1.key) := by
  induction visited with
  | nil => exact .slnil
  | cons v rest ih =>
    rw [List.foldr_cons, List.map_cons]
    generalize rest.foldr (LimitState.visit page maxFiles globalSize file) {} = state at ih ⊢
    have hkeep : ∀ rcm : RecordContainerMeta, rcm.key = v.1.key →
        ((if rcm.path = [] then state.kept else rcm :: state.kept).map
          RecordContainerMeta.key).Sublist (v.1.key :: rest.map fun v => v.1.key) := by
      intro rcm hkey
      split
      · exact ih.cons _
      · rw [List.map_cons, hkey]
        exact ih.cons_cons _
    simp only [LimitState.visit]
    split
    · exact ih.cons _
    · exact hkeep _ rfl
    · split
      · exact ih.cons _
      · exact hkeep _ (key_sanitize _ _)

theorem zipIdx_keys (containers : List RecordContainerMeta) :
    (containers.zipIdx.map fun v => v.1.key) = containers.map RecordContainerMeta.key := by
  rw [← List.zipIdx_map_fst 0 containers, List.map_map]
  simp

namespace Contents

theorem Keyed.eraseBusEntry (h : c.Keyed) (i : Nat) : (c.eraseBusEntry i).Keyed := by
  refine h.of_sublist (.refl _) (List.Sublist.map _ ?_)
  rw [liveBuses, liveBuses, Contents.eraseBusEntry]
  generalize c.messageBuses = buses
  induction buses generalizing i with
  | nil => simp
  | cons mbm buses ih =>
    cases i with
    | zero =>
      rw [List.modify_zero_cons, List.filter_cons_of_neg (by simp)]
      exact (List.sublist_cons_self _ _).filter _
    | succ i =>
      rw [List.modify_succ_cons, List.filter_cons, List.filter_cons]
      split
      · exact (ih i).cons_cons _
      · exact ih i

theorem Keyed.addRecoveryContainer (h : c.Keyed) (hbelow : c.Below) (candidate : MessageBusMeta) :
    (c.addRecoveryContainer candidate).Keyed := by
  obtain ⟨hne, hnew⟩ := hbelow.nextRotation_fresh .recovered
  have hcontainers : (c.addRecoveryContainer candidate).recordContainers =
      c.recordContainers ++ [⟨_, 0, .recovered, _⟩] := rfl
  refine h.add_container ?_ ?_ hcontainers rfl
  · exact hne
  · exact hnew

end Contents

theorem pruneLoop_keyed (busFile : Nat → BusFile) (n i : Nat) (contents : Contents)
    (h : contents.Keyed)
    (hbelow : ∀ c ∈ contents :: (pruneLoop busFile n i contents).1, c.Below) :
    ∀ c ∈ (pruneLoop busFile n i contents).1, c.Keyed := by
  induction n generalizing i contents with
  | zero => simp [pruneLoop]
  | succ n ih =>
    have herase : ∀ c : Contents, c.Keyed →
        (∀ stored ∈ c.eraseBusEntry i :: (pruneLoop busFile n (i + 1) (c.eraseBusEntry i)).1,
          stored.Below) →
        ∀ stored ∈ c.eraseBusEntry i :: (pruneLoop busFile n (i + 1) (c.eraseBusEntry i)).1,
          stored.Keyed := by
      intro c hc hrest
      exact List.forall_mem_cons.mpr ⟨hc.eraseBusEntry i, ih (i + 1) _ (hc.eraseBusEntry i) hrest⟩
    obtain ⟨hcontents, hbelow⟩ := List.forall_mem_cons.mp hbelow
    have hskip := fun hrest => ih (i + 1) contents h (List.forall_mem_cons.mpr ⟨hcontents, hrest⟩)
    revert hbelow
    rw [pruneLoop]
    split
    · simp
    · simp
    · dsimp only
      split_ifs
      · exact hskip
      · split
        · exact herase contents h
        · exact herase _ (h.addRecoveryContainer hcontents _)
        · simp
        · exact hskip

/-- What an operation that has created a file or chosen one for recovered messages is to have
done: the rotation is not in use in the contents that it has started from. -/
def Operation.ChoosesUnused : Operation → Contents → Prop
  | createRecordContainer filename sinkId opens, base =>
    ∀ stored ∈ (Database.createRecordContainer filename sinkId opens base).stores, ∃ rcm,
      stored.recordContainers = base.recordContainers ++ [rcm] ∧ rcm.sinkId = sinkId ∧
      (sinkId, rcm.rotation) ∉ base.containerKeys
  | createMessageBus filename id magic processId opens, base =>
    ∀ stored ∈ (Database.createMessageBus filename id magic processId opens base).stores, ∃ mbm,
      stored.messageBuses = base.messageBuses ++ [mbm] ∧ mbm.id = id ∧
      (id, mbm.rotation) ∉ base.busKeys
  | pruneMessageBuses file, base =>
    ∀ c ∈ base :: (Database.pruneMessageBuses file base).stores,
      (.recovered, nextRotation (c.recordContainers ++ [⟨[], 0, .recovered, 0⟩]) .recovered) ∉
        base.containerKeys
  | _, _ => True

theorem createRecordContainer_added {filename : UInt32 → Bytes} {sinkId : FileSinkId}
    {opens : List OpenOutcome} (hbelow : base.Below) :
    ∀ stored ∈ (createRecordContainer filename sinkId opens base).stores, ∃ rcm,
      stored.recordContainers = base.recordContainers ++ [rcm] ∧ rcm.sinkId = sinkId ∧
      (sinkId, rcm.rotation) ∉ base.containerKeys ∧ rcm.rotation ≠ 0 ∧
      stored.messageBuses = base.messageBuses := by
  simp only [createRecordContainer, lastContainerRotation_eq]
  split
  case h_1 =>
    intro stored hstored
    cases hstored
  case h_2 r hopen =>
    have hadded : RecordContainerMeta.rotation ⟨[], 0, sinkId, 0⟩ = 0 := rfl
    obtain ⟨hne, hfresh⟩ := openRetry_fresh hadded hbelow.1 hopen
    intro stored hstored
    cases List.mem_singleton.mp hstored
    refine ⟨_, rfl, rfl, fun hmem => ?_, hne, rfl⟩
    obtain ⟨rcm, hrcm, hkey⟩ := List.mem_map.mp hmem
    obtain ⟨hid, hrotation⟩ := Prod.mk.inj hkey
    exact hfresh rcm hrcm hid hrotation

theorem createMessageBus_added {filename : UInt32 → Bytes} {id magic : Bytes} {processId : UInt32}
    {opens : List OpenOutcome} (hbelow : base.Below) :
    ∀ stored ∈ (createMessageBus filename id magic processId opens base).stores, ∃ mbm,
      stored.messageBuses = base.messageBuses ++ [mbm] ∧ mbm.id = id ∧
      (id, mbm.rotation) ∉ base.busKeys ∧ stored.recordContainers = base.recordContainers := by
  simp only [createMessageBus, lastBusRotation_eq]
  split
  case h_1 =>
    intro stored hstored
    cases hstored
  case h_2 r hopen =>
    have hadded : MessageBusMeta.rotation ⟨[], magic, id, 0, processId⟩ = 0 := rfl
    obtain ⟨-, hfresh⟩ := openRetry_fresh hadded hbelow.2 hopen
    intro stored hstored
    cases List.mem_singleton.mp hstored
    refine ⟨_, rfl, rfl, fun hmem => ?_, rfl⟩
    obtain ⟨mbm, hmbm, hkey⟩ := List.mem_map.mp hmem
    obtain ⟨hid, hrotation⟩ := Prod.mk.inj hkey
    exact hfresh mbm hmbm hid hrotation

theorem Operation.choosesUnused (op : Operation)
    (hbelow : ∀ c ∈ base :: (op.plan base).stores, c.Below) : op.ChoosesUnused base := by
  have hbase := hbelow base List.mem_cons_self
  cases op with
  | createRecordContainer =>
    intro stored hstored
    obtain ⟨rcm, hcontainers, hid, hnew, -⟩ := createRecordContainer_added hbase stored hstored
    exact ⟨rcm, hcontainers, hid, hnew⟩
  | createMessageBus =>
    intro stored hstored
    obtain ⟨mbm, hbuses, hid, hnew, -⟩ := createMessageBus_added hbase stored hstored
    exact ⟨mbm, hbuses, hid, hnew⟩
  | pruneMessageBuses file =>
    intro c hc hmem
    have hkept : base.recordContainers ⊆ c.recordContainers := by
      rcases List.mem_cons.mp hc with rfl | hstored
      · exact List.Subset.refl _
      · exact (pruneLoop_entries file _ 0 base c hstored).1
    exact ((hbelow c hc).nextRotation_fresh .recovered).2 (List.map_subset _ hkept hmem)
  | _ => trivial

/-- Whatever an operation stores and caches has unique keys, if what it works on has. -/
theorem plan_keyed (h : base.Keyed) (hlive : base.liveBuses = base.messageBuses)
    (hbelow : ∀ c ∈ base :: (op.plan base).stores, c.Below) :
    ∀ c ∈ (op.plan base).stores, c.Keyed := by
  have hbase := hbelow base List.mem_cons_self
  cases op with
  | fetchContent =>
    intro c hc
    cases hc
  | createRecordContainer =>
    intro c hc
    obtain ⟨rcm, hcontainers, rfl, hnew, hne, hbuses⟩ := createRecordContainer_added hbase c hc
    exact h.add_container hne hnew hcontainers hbuses
  | updateRecordContainerSize which rotation newSize =>
    simp only [Operation.plan, updateRecordContainerSize]
    split
    · intro c hc
      cases hc
    case h_2 i _ =>
      have hkeys : (base.recordContainers.modify i fun rcm =>
          { rcm with byteSize := newSize }).map RecordContainerMeta.key = base.containerKeys := by
        have hfiles := congrArg (List.map Prod.snd)
          (map_file_modify i newSize base.recordContainers)
        rwa [List.map_map, List.map_map] at hfiles
      rintro c hc
      cases List.mem_singleton.mp hc
      refine h.fewer_containers ?_ rfl
      rw [Contents.containerKeys, hkeys]
  | pruneRecordContainersIf file =>
    rintro c hc
    cases List.mem_singleton.mp hc
    refine h.fewer_containers ?_ rfl
    rw [Contents.containerKeys, Contents.containerKeys, ← zipIdx_keys base.recordContainers]
    refine filterMap_keys _ _ _ (fun v rcm hrcm => ?_) _
    grind [key_sanitize]
  | pruneRecordContainers page maxFiles globalSize file =>
    rintro c hc
    cases List.mem_singleton.mp hc
    refine h.fewer_containers ?_ rfl
    rw [Contents.containerKeys, Contents.containerKeys, ← zipIdx_keys base.recordContainers]
    exact visit_keys _
  | createMessageBus =>
    intro c hc
    obtain ⟨mbm, hbuses, rfl, hnew, hcontainers⟩ := createMessageBus_added hbase c hc
    exact h.add_bus hlive hnew hcontainers hbuses
  | removeMessageBus id rotation =>
    simp only [Operation.plan, removeMessageBus]
    split
    · rintro c hc
      cases List.mem_singleton.mp hc
      exact h.fewer_buses hlive rfl List.filter_sublist
    · intro c hc
      cases hc
  | pruneMessageBuses busFile => exact pruneLoop_keyed busFile _ 0 base h hbelow
  | unlinkAllMessageBuses gone =>
    rintro c hc
    cases List.mem_singleton.mp hc
    exact h.fewer_buses hlive rfl (base.unlinkMessageBuses_sublist gone)
  | unlinkAllRecordContainers gone =>
    rintro c hc
    cases List.mem_singleton.mp hc
    exact h.fewer_containers ((base.unlinkRecordContainers_sublist gone).map _) rfl
  | unlinkAll containerGone busGone rootUnlinked =>
    have hunlinked : (base.unlinkRecordContainers containerGone).Keyed :=
      h.fewer_containers ((base.unlinkRecordContainers_sublist containerGone).map _) rfl
    have hc : ((base.unlinkRecordContainers containerGone).unlinkMessageBuses busGone).Keyed :=
      hunlinked.fewer_buses hlive rfl (Contents.unlinkMessageBuses_sublist _ busGone)
    simp only [Operation.plan]
    split <;> exact List.forall_mem_singleton.mpr hc

theorem plan_cache_keyed (h : base.Keyed) (hlive : base.liveBuses = base.messageBuses)
    (hbelow : ∀ c ∈ base :: (op.plan base).stores, c.Below) :
    ∀ m ∈ (op.plan base).cache, m.Keyed := by
  have hstores := plan_keyed h hlive hbelow
  intro m hm
  cases hop : op.inPlace with
  | true =>
    obtain ⟨c, hplan, -, -, hcache⟩ := plan_inPlace base hop
    rw [hcache m hm]
    exact hstores c (hplan ▸ List.mem_cons_self)
  | false =>
    obtain ⟨m', hm', hcache⟩ := plan_cache base hop hlive
    cases hm'.symm.trans hm
    rcases hcache with rfl | ⟨last, hlast, hsame⟩
    · exact h
    · exact (hstores last (List.mem_of_getLast? hlast)).of_entries hsame.2

end

/-! ## The file -/

section

variable {codec : ContentsCodec} {f f' : File} {cached c base : Contents} {stores : List Contents}

theorem fetchDecoded_keyed {even odd : Option Contents} (hcached : cached.Keyed)
    (heven : ∀ c ∈ even, c.Keyed) (hodd : ∀ c ∈ odd, c.Keyed)
    (h : fetchDecoded even odd cached = some base) :
    base.Keyed ∧ base.liveBuses = base.messageBuses := by
  have hadopt : ∀ (fetched : Fetched) (stream : Bool) (decoded : Option Contents),
      fetched.contents.Keyed → (∀ c ∈ decoded, c.Keyed) →
      (fetched.adopt stream decoded).contents.Keyed := by
    intro fetched stream decoded hfetched hdecoded
    cases decoded with
    | none => exact hfetched
    | some c =>
      rw [Fetched.adopt]
      split
      · exact hdecoded c rfl
      · exact hfetched
  have hsettle : ∀ fetched : Fetched, fetched.contents.Keyed → fetched.settle.Keyed := by
    intro fetched hfetched
    rw [Fetched.settle]
    split
    · exact hfetched.of_entries .rfl
    · exact hfetched
  rw [fetchDecoded] at h
  split at h <;> cases h
  refine ⟨Contents.Keyed.of_entries ?_ (Contents.arrange_same _).2, Contents.liveBuses_arrange _⟩
  exact hsettle _ (hadopt _ _ _ (hadopt _ _ _ hcached heven) hodd)

namespace ContentsCodec

/-- A root file in which all contents have unique keys. -/
structure KeyedFile (codec : ContentsCodec) (f : File) : Prop where
  size : 2 * pageSize < f.size
  header : validateMagic f
  stream : ∀ odd, Blank f odd ∨ ∃ c, codec.Stored f c ∧ c.odd = odd ∧ c.Keyed
  current : ∃ c, codec.Stored f c

theorem KeyedFile.decodeStream (h : codec.KeyedFile f) (odd : Bool) :
    ∃ decoded, codec.decodeStream f odd = some decoded ∧ ∀ c ∈ decoded, c.Keyed := by
  rcases h.stream odd with hblank | ⟨c, hstored, rfl, hc⟩
  · exact ⟨none, hblank.decodeStream, nofun⟩
  · exact ⟨some c, hstored.decodeStream, fun _ hmem => Option.mem_some.mp hmem ▸ hc⟩

theorem KeyedFile.fetch (h : codec.KeyedFile f) (hcached : cached.Keyed) :
    ∃ base, codec.fetchContentImpl f cached = some base ∧ base.Keyed ∧
      base.liveBuses = base.messageBuses := by
  obtain ⟨even, heven, hekeyed⟩ := h.decodeStream false
  obtain ⟨odd, hodd, hokeyed⟩ := h.decodeStream true
  obtain ⟨c, hc⟩ := h.current
  have hsome : ¬(even.isNone ∧ odd.isNone) := by
    rintro ⟨hnoeven, hnoodd⟩
    have hdecoded := hc.decodeStream
    cases hc : c.odd with
    | false =>
      rw [hc, heven] at hdecoded
      simp [Option.some.inj hdecoded] at hnoeven
    | true =>
      rw [hc, hodd] at hdecoded
      simp [Option.some.inj hdecoded] at hnoodd
  have hfetch : codec.fetchContentImpl f cached = fetchDecoded even odd cached := by
    simp only [fetchContentImpl, heven, hodd, Option.bind_eq_bind, Option.bind_some]
  obtain ⟨base, hbase⟩ : ∃ base, fetchDecoded even odd cached = some base := by
    rw [fetchDecoded, if_neg hsome]
    exact ⟨_, rfl⟩
  exact ⟨base, hfetch.trans hbase, fetchDecoded_keyed hcached hekeyed hokeyed hbase⟩

theorem KeyedFile.fileDatabase (h : codec.KeyedFile f) :
    ∃ base, codec.fileDatabase f = some (f, base) ∧ base.Keyed ∧
      base.liveBuses = base.messageBuses := by
  have hsize : f.size ≠ 0 := Nat.ne_zero_of_lt h.size
  obtain ⟨base, hfetch, hbase⟩ := h.fetch .empty
  refine ⟨base, ?_, hbase⟩
  rw [ContentsCodec.fileDatabase, if_pos hsize, if_pos h.header, hfetch]
  rfl

theorem KeyedFile.retire (h : codec.KeyedFile f) (hc : c.Keyed)
    (hretire : codec.retireToStorage f c = some f') : codec.KeyedFile f' := by
  have hstored := retireToStorage_stored hretire
  obtain ⟨-, rfl⟩ := retireToStorage_eq_some hretire
  have hfull := full_chunksOf codec c
  refine ⟨h.size.trans_le size_le_writeChunks, validateMagic_writeChunks h.header, ?_, c, hstored⟩
  intro odd
  by_cases hodd : c.odd = odd
  · exact .inr ⟨c, hstored, hodd, hc⟩
  · rcases h.stream odd with ⟨rest, hread⟩ | ⟨other, hother, rfl, hkeyed⟩
    · exact .inl ⟨rest, readChunk_writeChunks hfull (.inr (Ne.symm hodd)) hread⟩
    · exact .inr ⟨other, hother.writeChunks hfull (Ne.symm hodd), rfl, hkeyed⟩

theorem KeyedFile.storeAll (h : codec.KeyedFile f) (hstores : ∀ c ∈ stores, c.Keyed)
    (hstore : RootFile.storeAll codec f stores = some f') : codec.KeyedFile f' := by
  induction stores generalizing f with
  | nil =>
    cases hstore
    exact h
  | cons c rest ih =>
    obtain ⟨g, hretire, hrest⟩ := Option.bind_eq_some_iff.mp hstore
    obtain ⟨hc, hkeyed⟩ := List.forall_mem_cons.mp hstores
    exact ih (h.retire hc hretire) hkeyed hrest

theorem initializeStorage_keyed (h : codec.initializeStorage = some f) : codec.KeyedFile f := by
  obtain ⟨hsize, hheader, hstored, hblank, -⟩ := initializeStorage_represents h
  refine ⟨hsize, hheader, fun odd => ?_, {}, hstored⟩
  by_cases hodd : odd = Contents.odd {}
  · exact .inr ⟨{}, hstored, hodd.symm, .empty⟩
  · exact .inl (Bool.eq_not.mpr hodd ▸ hblank)

end ContentsCodec

end

/-! ## Runs -/

def View.Below : Action → View → Prop
  | .operate handle op, v => ∀ cached ∈ v.cached handle,
    ∀ c ∈ v.basis cached :: (op.plan (v.basis cached)).stores, c.Below
  | _, _ => True

instance (action : Action) (v : View) : Decidable (View.Below action v) :=
  match action with
  | .operate handle _ =>
    inferInstanceAs (Decidable (∀ cached ∈ v.cached handle, ∀ c ∈ _ :: _, Contents.Below c))
  | .openFile | .clone _ => .isTrue trivial

/-- What a handle caches if it cannot store: only unlinking has changed its contents before. -/
def Operation.unstored (op : Operation) (base : Contents) : Option Contents :=
  if op.inPlace then (op.plan base).cache else some base

/-- An action, or an operation of which only the first contents are stored. -/
inductive Event where
  | action (action : Action)
  | failing (handle : Nat) (op : Operation) (stored : Nat)

namespace RootFile

variable (codec : ContentsCodec)

def stepEvent : Event → RootFile → Option RootFile
  | .action action, db => step codec action db
  | .failing handle op stored, db => (db.fetched codec handle).bind fun base =>
    (storeAll codec db.file ((op.plan base).stores.take stored)).map fun file =>
      { db with file := file, handles := db.handles.set handle (op.unstored base) }

/-- Rotations stay below the limit. -/
def EventBelow : Event → RootFile → Prop
  | .action (.operate handle op), db | .failing handle op _, db =>
    ∀ base ∈ db.fetched codec handle, ∀ c ∈ base :: (op.plan base).stores, c.Below
  | _, _ => True

/-- The contents of the file and of all handles have unique keys. -/
structure Keyed (db : RootFile) : Prop where
  file : codec.KeyedFile db.file
  cached : ∀ handle, ∀ cached ∈ db.cached handle, cached.Keyed

/-- Whatever is fetched has unique keys, and operations choose rotations that are not in use. -/
structure UniqueKeys (db : RootFile) : Prop where
  fetched : ∀ handle, (db.cached handle).isSome →
    ∃ base, db.fetched codec handle = some base ∧ base.UniqueKeys
  opened : ∃ base, codec.fileDatabase db.file = some (db.file, base) ∧ base.UniqueKeys
  chosen : ∀ handle op, EventBelow codec (.action (.operate handle op)) db →
    ∀ base ∈ db.fetched codec handle, op.ChoosesUnused base

variable {codec} {db db' db₀ : RootFile} {event : Event} {events : List Event} {handle : Nat}
  {base : Contents}

theorem Keyed.fetched (h : db.Keyed codec) (hbase : db.fetched codec handle = some base) :
    base.Keyed ∧ base.liveBuses = base.messageBuses := by
  obtain ⟨cached, hcached, hfetch⟩ := Option.bind_eq_some_iff.mp hbase
  obtain ⟨base', hfetch', hkeyed⟩ := h.file.fetch (h.cached handle cached hcached)
  cases hfetch.symm.trans hfetch'
  exact hkeyed

theorem Keyed.uniqueKeys (h : db.Keyed codec) : db.UniqueKeys codec where
  fetched handle hsome := by
    obtain ⟨cached, hcached⟩ := Option.isSome_iff_exists.mp hsome
    obtain ⟨base, hfetch, hkeyed, hlive⟩ := h.file.fetch (h.cached handle cached hcached)
    exact ⟨base, Option.bind_eq_some_iff.mpr ⟨cached, hcached, hfetch⟩, hkeyed.unique hlive⟩
  opened := by
    obtain ⟨base, hopen, hkeyed, hlive⟩ := h.file.fileDatabase
    exact ⟨base, hopen, hkeyed.unique hlive⟩
  chosen handle op hbelow base hbase := op.choosesUnused (hbelow base hbase)

theorem Keyed.attach (h : db.Keyed codec) {contents : Contents} (hcontents : contents.Keyed)
    (handle : Nat) : ∀ cached ∈ (db.attach contents).cached handle, cached.Keyed := by
  intro cached hcached
  rcases View.cached_attach hcached with hold | rfl
  · exact h.cached handle cached hold
  · exact hcontents

theorem Keyed.set (h : db.Keyed codec) {cache : Option Contents} (hcache : ∀ m ∈ cache, m.Keyed)
    (handle other : Nat) : ∀ cached ∈ (db.handles.set handle cache)[other]?.join, cached.Keyed := by
  intro cached hcached
  rw [List.getElem?_set] at hcached
  split at hcached
  · split at hcached
    · exact hcache cached hcached
    · cases hcached
  · exact h.cached other cached hcached

theorem Keyed.step (h : db.Keyed codec) (hbelow : EventBelow codec event db)
    (hstep : stepEvent codec event db = some db') : db'.Keyed codec := by
  match event with
  | .action .openFile =>
    obtain ⟨base, hopen, hkeyed, -⟩ := h.file.fileDatabase
    rw [stepEvent, RootFile.step, hopen] at hstep
    split at hstep <;> cases hstep
    exact ⟨h.file, h.attach hkeyed⟩
  | .action (.clone handle) =>
    obtain ⟨cached, hcached, rfl⟩ := Option.map_eq_some_iff.mp hstep
    exact ⟨h.file, h.attach (h.cached handle cached hcached)⟩
  | .action (.operate handle op) =>
    obtain ⟨base, hbase, hstep⟩ := Option.bind_eq_some_iff.mp hstep
    obtain ⟨f', hstore, rfl⟩ := Option.map_eq_some_iff.mp hstep
    obtain ⟨hkeyed, hlive⟩ := h.fetched hbase
    have hrotations := hbelow base hbase
    exact ⟨h.file.storeAll (plan_keyed hkeyed hlive hrotations) hstore,
      h.set (plan_cache_keyed hkeyed hlive hrotations) handle⟩
  | .failing handle op stored =>
    obtain ⟨base, hbase, hstep⟩ := Option.bind_eq_some_iff.mp hstep
    obtain ⟨f', hstore, rfl⟩ := Option.map_eq_some_iff.mp hstep
    obtain ⟨hkeyed, hlive⟩ := h.fetched hbase
    have hrotations := hbelow base hbase
    have hstores := plan_keyed hkeyed hlive hrotations
    have hcache : ∀ m ∈ op.unstored base, m.Keyed := by
      rw [Operation.unstored]
      split
      · exact plan_cache_keyed hkeyed hlive hrotations
      · exact fun m hm => Option.mem_some.mp hm ▸ hkeyed
    exact ⟨h.file.storeAll (fun c hc => hstores c (List.mem_of_mem_take hc)) hstore,
      h.set hcache handle⟩

theorem create_keyed (h : create codec = some db) : db.Keyed codec := by
  obtain ⟨opened, hopened, rfl⟩ := Option.map_eq_some_iff.mp h
  obtain ⟨f, hinit, rfl⟩ := Option.map_eq_some_iff.mp hopened
  refine ⟨ContentsCodec.initializeStorage_keyed hinit, ?_⟩
  rintro (_ | handle) cached ⟨⟩
  exact .empty

/-- In every run of any handles the keys of the entries stay unique. -/
theorem keys_unique (hcreate : create codec = some db₀)
    (hbelow : Runs.Along (stepEvent codec) (EventBelow codec) events db₀)
    (hrun : Runs.run (stepEvent codec) events db₀ = some db) : db.UniqueKeys codec := by
  have hkeyed : db.Keyed codec :=
    Runs.invariant (fun _ _ _ hbelow hs hstep => hs.step hbelow hstep) hbelow
      (create_keyed hcreate) hrun
  exact hkeyed.uniqueKeys

theorem run_actions (actions : List Action) (db : RootFile) :
    Runs.run (stepEvent codec) (actions.map .action) db = Runs.run (step codec) actions db := by
  induction actions generalizing db with
  | nil => rfl
  | cons action actions ih =>
    simp only [List.map_cons, Runs.run, stepEvent]
    exact congrArg _ (funext ih)

/-- What holds along a run of the view holds along the run of the file. -/
theorem Sound.along_events {cond : Event → RootFile → Prop} {viewCond : Action → View → Prop}
    (hcond : ∀ action (db : RootFile), db.Sound codec → viewCond action db.toView →
      View.Room action db.toView ∧ cond (.action action) db)
    (h : db.Sound codec) {actions : List Action}
    (halong : Runs.Along (View.step codec) viewCond actions db.toView) :
    Runs.Along (stepEvent codec) cond (actions.map .action) db := by
  induction actions generalizing db with
  | nil => trivial
  | cons action actions ih =>
    obtain ⟨hfirst, hrest⟩ := halong
    obtain ⟨hroom, hevent⟩ := hcond action db h hfirst
    refine ⟨hevent, fun db' hstep => ih (h.step hroom hstep) (hrest db'.toView ?_)⟩
    rw [← h.step_toView]
    exact congrArg (Option.map RootFile.toView) hstep

/-- Rotations that are below the limit in the view are so in the file. -/
theorem Sound.eventBelow {action : Action} (h : db.Sound codec)
    (hbelow : View.Below action db.toView) : EventBelow codec (.action action) db := by
  cases action with
  | openFile | clone => trivial
  | operate handle op =>
    intro base hbase
    rw [h.fetched] at hbase
    obtain ⟨cached, hcached, rfl⟩ := Option.map_eq_some_iff.mp hbase
    exact hbelow cached hcached

/-- One handle registers a bus that the other recovers. -/
def recoverBus : List Action :=
  [.openFile,
    .operate 0 (.createMessageBus (fun _ => [98, 117, 115]) [105, 100] mpscMagic 1 [.opened]),
    .operate 1 (.pruneMessageBuses fun _ => .recovered)]

theorem keys_unique_recoverBus : ∃ db₀ db, create Plain.codec = some db₀ ∧
    Runs.run (stepEvent Plain.codec) (recoverBus.map .action) db₀ = some db ∧
    db.UniqueKeys Plain.codec := by
  have halong : Runs.Along (View.step Plain.codec)
      (fun action v => View.Room action v ∧ View.Below action v) recoverBus View.created := by
    decide +kernel
  have hview : ∃ v, Runs.run (View.step Plain.codec) recoverBus View.created = some v :=
    Option.isSome_iff_exists.mp (by decide +kernel)
  have hfits : Plain.codec.Fits {} := by decide +kernel
  obtain ⟨db₀, hcreate, hcreated⟩ := create_of_fits hfits
  rw [← hcreated] at halong hview
  have hsound := create_sound hcreate
  obtain ⟨v, hview⟩ := hview
  obtain ⟨db, hrun, -⟩ := hsound.run_of_view (halong.imp fun _ _ => And.left) hview
  rw [← run_actions] at hrun
  have hcond : ∀ action (db : RootFile), db.Sound Plain.codec →
      View.Room action db.toView ∧ View.Below action db.toView →
      View.Room action db.toView ∧ EventBelow Plain.codec (.action action) db :=
    fun _ _ h hview => ⟨hview.1, h.eventBelow hview.2⟩
  exact ⟨db₀, db, hcreate, hrun, keys_unique hcreate (hsound.along_events hcond halong) hrun⟩

end RootFile

end Deeplog.Database

import Deeplog.Database.Keys
import Deeplog.Database.Limits
import Deeplog.Database.Updates

/-!
# What a handle sees of its own changes

An operation changes a copy of the contents, stores the copy and makes it the contents of its
handle. Updating the size of a container and pruning containers leave the last step out, and
unlinking does not look at whether the store has failed. In all other cases a handle lists what a
handle that is opened afterwards fetches.
-/

namespace Deeplog.Database

/-! ## Pruning that changes nothing -/

/-- `prune_record_containers(predicate)` leaves the entry of a container as it is. -/
def UntouchedIf (file : Nat → ContainerFile) (visited : RecordContainerMeta × Nat) : Prop :=
  match file visited.2 with
  | .missing => False
  | .unavailable => True
  | .available _ prune => prune = false ∧ visited.1.byteSize ≠ 0

/-- `prune_record_containers(limits)` leaves all entries as they are. -/
def Untouched (page : Pages) (maxFiles : UInt32) (globalSize : UInt64)
    (file : Nat → ContainerFile) :
    List (RecordContainerMeta × Nat) → Prop
  | [] => True
  | visited :: newer =>
    Untouched page maxFiles globalSize file newer ∧ visited.1.path ≠ [] ∧
    match file visited.2 with
    | .missing => False
    | .unavailable => True
    | .available _ _ =>
      let sizes := availableSizes page file newer
      ¬Stops maxFiles globalSize sizes sizes.length ∧ visited.1.byteSize ≠ 0

/-- The containers, and once more those whose size is not known: pruning removes the ones and
fills in the other. -/
def unsettled (containers : List RecordContainerMeta) : Nat :=
  containers.length + containers.countP (·.byteSize = 0)

/-- Containers that are `untouched` are kept, and fewer are unsettled otherwise. -/
structure Shrinks (kept containers : List RecordContainerMeta) (untouched : Prop) : Prop where
  keeps : untouched → kept = containers
  drops : ¬untouched → unsettled kept < unsettled containers

section Pruning

variable {page : Pages} {maxFiles : UInt32} {globalSize : UInt64} {file : Nat → ContainerFile}
  {kept kept' containers containers' : List RecordContainerMeta} {untouched untouched' : Prop}
  {rcm : RecordContainerMeta}

theorem unsettled_append :
    unsettled (kept ++ containers) = unsettled kept + unsettled containers := by
  simp only [unsettled, List.countP_append, List.length_append]
  omega

/-- Only containers that are untouched are the same in another order. -/
theorem Shrinks.perm_iff (h : Shrinks kept containers untouched) :
    kept.Perm containers ↔ untouched := by
  constructor
  · intro hperm
    have heq : unsettled kept = unsettled containers := by
      rw [unsettled, unsettled, hperm.length_eq, hperm.countP_eq]
    exact by_contra fun hnot => Nat.ne_of_lt (h.drops hnot) heq
  · intro huntouched
    exact h.keeps huntouched ▸ .refl _

theorem Shrinks.congr (h : Shrinks kept containers untouched) (hiff : untouched ↔ untouched') :
    Shrinks kept containers untouched' :=
  ⟨fun h' => h.keeps (hiff.mpr h'), fun hnot => h.drops (hiff.not.mpr hnot)⟩

theorem Shrinks.le (h : Shrinks kept containers untouched) :
    unsettled kept ≤ unsettled containers := by
  by_cases huntouched : untouched
  · rw [h.keeps huntouched]
  · exact (h.drops huntouched).le

theorem Shrinks.append (h : Shrinks kept containers untouched)
    (h' : Shrinks kept' containers' untouched') :
    Shrinks (kept ++ kept') (containers ++ containers') (untouched' ∧ untouched) where
  keeps huntouched := by rw [h.keeps huntouched.2, h'.keeps huntouched.1]
  drops hnot := by
    rw [unsettled_append, unsettled_append]
    by_cases huntouched : untouched
    · exact Nat.add_lt_add_of_le_of_lt h.le (h'.drops fun h' => hnot ⟨h', huntouched⟩)
    · exact Nat.add_lt_add_of_lt_of_le (h.drops huntouched) h'.le

theorem Shrinks.none (rcm : RecordContainerMeta) : Shrinks [] [rcm] False :=
  ⟨False.elim, fun _ => by simp [unsettled]⟩

theorem Shrinks.same (rcm : RecordContainerMeta) : Shrinks [rcm] [rcm] True :=
  ⟨fun _ => rfl, fun hnot => absurd trivial hnot⟩

theorem max_one_ne_zero (size : UInt32) : max size 1 ≠ 0 := by
  have hmax : max size 1 = if size ≤ 1 then 1 else size := rfl
  grind

/-- A size that is not known is filled in. -/
theorem Shrinks.sanitize (extent : Option UInt64) (rcm : RecordContainerMeta) :
    Shrinks [sanitizeContainerByteSize extent rcm] [rcm] (rcm.byteSize ≠ 0) where
  keeps hsize := by simp only [sanitizeContainerByteSize, if_neg hsize]
  drops hnot := by
    have hsize : rcm.byteSize = 0 := not_not.mp hnot
    have hfilled : (sanitizeContainerByteSize extent rcm).byteSize ≠ 0 := by
      simp only [sanitizeContainerByteSize, if_pos hsize]
      exact max_one_ne_zero _
    simp [unsettled, hsize, hfilled]

/-! ### With a predicate -/

theorem shrinks_pruneEntry (file : Nat → ContainerFile) (visited : RecordContainerMeta × Nat) :
    Shrinks (pruneEntry file visited).toList [visited.1] (UntouchedIf file visited) := by
  rw [pruneEntry, UntouchedIf]
  cases file visited.2 with
  | missing => exact .none visited.1
  | unavailable => exact .same visited.1
  | available extent prune =>
    cases prune with
    | true => simpa using Shrinks.none visited.1
    | false => simpa using Shrinks.sanitize extent visited.1

theorem shrinks_pruneIf (file : Nat → ContainerFile) (all : List (RecordContainerMeta × Nat)) :
    Shrinks (all.filterMap (pruneEntry file)) (all.map Prod.fst)
      (∀ visited ∈ all, UntouchedIf file visited) := by
  induction all with
  | nil => exact ⟨fun _ => rfl, fun hnot => absurd nofun hnot⟩
  | cons visited newer ih =>
    have happend := (shrinks_pruneEntry file visited).append ih
    rw [List.filterMap_cons, List.forall_mem_cons, and_comm]
    cases hentry : pruneEntry file visited with
    | none => simpa [hentry] using happend
    | some rcm => simpa [hentry] using happend

/-! ### With limits -/

/-- If nothing has been touched, the loop has counted all available files. -/
theorem Untouched.totals {all : List (RecordContainerMeta × Nat)}
    (h : Untouched page maxFiles globalSize file all) :
    (all.foldr (LimitState.visit page maxFiles globalSize file) {}).numFiles =
        .ofNat (availableSizes page file all).length ∧
      (all.foldr (LimitState.visit page maxFiles globalSize file) {}).accumulatedSize =
        .ofNat (availableSizes page file all).sum := by
  induction all with
  | nil => exact ⟨rfl, rfl⟩
  | cons visited newer ih =>
    obtain ⟨hnewer, -, hvisited⟩ := h
    obtain ⟨hnum, hsum⟩ := ih hnewer
    rw [List.foldr_cons, LimitState.visit, availableSizes_cons, occupied]
    cases hfile : file visited.2 with
    | missing => simp [hfile] at hvisited
    | unavailable => simpa [hfile] using ⟨hnum, hsum⟩
    | available extent prune =>
      simp only [hfile] at hvisited
      have hgoes := hvisited.1
      rw [Stops, List.take_length, ← hnum, ← hsum] at hgoes
      simp only [if_neg hgoes, Option.toList_some, List.length_append, List.length_singleton,
        List.sum_append, List.sum_singleton]
      rw [hnum, hsum, UInt32.ofNat_add, UInt64.ofNat_add]
      exact ⟨rfl, rfl⟩

theorem shrinks_visit (page : Pages) (maxFiles : UInt32) (globalSize : UInt64)
    (file : Nat → ContainerFile) (all : List (RecordContainerMeta × Nat)) :
    Shrinks (all.foldr (LimitState.visit page maxFiles globalSize file) {}).kept
      (all.map Prod.fst) (Untouched page maxFiles globalSize file all) := by
  induction all with
  | nil => exact ⟨fun _ => rfl, fun hnot => absurd trivial hnot⟩
  | cons visited newer ih =>
    have hdropped := (Shrinks.none visited.1).append ih
    rw [List.foldr_cons, LimitState.visit, List.map_cons, Untouched]
    by_cases hpath : visited.1.path = []
    · -- such an entry is erased, whatever becomes of its file
      refine ⟨fun h => absurd hpath h.2.1, fun _ => ?_⟩
      have hlt := hdropped.drops fun h => h.2
      cases file visited.2 with
      | missing => exact hlt
      | unavailable =>
        simp only [if_pos hpath]
        exact hlt
      | available extent prune =>
        dsimp only
        split
        · exact hlt
        · simp only [path_sanitize, if_pos hpath]
          exact hlt
    · cases hfile : file visited.2 with
      | missing => exact hdropped.congr (by simp)
      | unavailable =>
        simp only [if_neg hpath]
        exact ((Shrinks.same visited.1).append ih).congr (by simp [hpath])
      | available extent prune =>
        simp only [path_sanitize, if_neg hpath]
        split
        case isTrue hstops =>
          refine hdropped.congr ⟨fun h => h.2.elim, fun h => ?_⟩
          obtain ⟨hnewer, -, hgoes, -⟩ := h
          obtain ⟨hnum, hsum⟩ := hnewer.totals
          rw [hnum, hsum] at hstops
          rw [Stops, List.take_length] at hgoes
          exact absurd hstops hgoes
        case isFalse hgoes =>
          refine ((Shrinks.sanitize extent visited.1).append ih).congr ?_
          refine and_congr_right fun hnewer => ?_
          obtain ⟨hnum, hsum⟩ := hnewer.totals
          rw [hnum, hsum] at hgoes
          simp [Stops, hpath, hgoes]

end Pruning

/-! ## Operations -/

/-- The operations that change the entries, but for the one that unlinks the root file as well. -/
def Operation.mutates : Operation → Bool
  | fetchContent | unlinkAll .. => false
  | _ => true

/-- The operation ends with success, if its stores do. -/
def Operation.Succeeds : Operation → Contents → Prop
  | fetchContent, _ | pruneRecordContainersIf _, _ | pruneRecordContainers .., _ => True
  | pruneMessageBuses file, base => (pruneLoop file base.messageBuses.length 0 base).2.isSome
  | unlinkAllMessageBuses gone, base => (base.unlinkMessageBuses gone).messageBuses = []
  | unlinkAllRecordContainers gone, base =>
    (base.unlinkRecordContainers gone).recordContainers = []
  | unlinkAll containerGone busGone rootUnlinked, base =>
    ((unlinkAll containerGone busGone rootUnlinked).plan base).cache = none
  | op, base => (op.plan base).stores ≠ []

/-- The handle lists what the operation has stored. A size is updated to the one that is listed,
pruning touches nothing, or a new bus does not get the rotation of erased ones. -/
def Operation.Publishes : Operation → Contents → Prop
  | updateRecordContainerSize which rotation newSize, base =>
    ∀ rcm ∈ base.recordContainers.find? fun rcm => rcm.sinkId = which ∧ rcm.rotation = rotation,
      rcm.byteSize = newSize
  | pruneRecordContainersIf file, base =>
    ∀ visited ∈ base.recordContainers.zipIdx, UntouchedIf file visited
  | pruneRecordContainers page maxFiles globalSize file, base =>
    Untouched page maxFiles globalSize file base.recordContainers.zipIdx
  | createMessageBus _ id magic processId opens, base =>
    let lastRotation := lastBusRotation id (base.messageBuses ++ [⟨[], magic, id, 0, processId⟩])
    openRetry lastRotation (lastRotation + 1) opens ≠ some 0
  | _, _ => True

section Operations

variable {base current c last m : Contents} {op : Operation}

/-- The entries of a handle are those of the contents. -/
def Contents.Lists (m current : Contents) : Prop :=
  m.recordContainers.Perm current.recordContainers ∧ m.messageBuses.Perm current.liveBuses

theorem Contents.Lists.of_same (hlive : m.liveBuses = m.messageBuses) (h : m.SameEntries current) :
    m.Lists current :=
  ⟨h.1, hlive ▸ h.2⟩

theorem lists_self_iff : c.Lists c ↔ ∀ mbm ∈ c.messageBuses, mbm.rotation ≠ 0 := by
  constructor
  · rintro ⟨-, hbuses⟩ mbm hmbm
    exact Contents.rotation_ne_zero (hbuses.mem_iff.mp hmbm)
  · intro h
    refine ⟨.refl _, ?_⟩
    rw [Contents.liveBuses_eq h]

/-- An entry that is modified is another one, unless it stays as it is. -/
theorem modify_perm_iff {α : Type} {entries : List α} {i : Nat} {a : α} (f : α → α)
    (hi : entries[i]? = some a) : entries.Perm (entries.modify i f) ↔ f a = a := by
  induction entries generalizing i with
  | nil => cases hi
  | cons b entries ih =>
    cases i with
    | zero =>
      cases hi
      have hhead : ([a] ++ entries).Perm ([f a] ++ entries) ↔ f a = a := by
        rw [List.perm_append_right_iff, List.singleton_perm_singleton, eq_comm]
      exact hhead
    | succ i =>
      rw [List.modify_succ_cons, List.perm_cons]
      exact ih hi

theorem lists_self (hlive : c.liveBuses = c.messageBuses) : c.Lists c :=
  .of_same hlive .rfl

/-- A bus that is added is listed again unless its rotation marks it as erased. -/
theorem lists_added_iff {added : MessageBusMeta} (hlive : base.liveBuses = base.messageBuses)
    (hc : c.messageBuses = base.messageBuses ++ [added]) : c.Lists c ↔ added.rotation ≠ 0 := by
  rw [lists_self_iff, hc]
  constructor
  · intro h
    exact h added (by simp)
  · intro hadded mbm hmbm
    rcases List.mem_append.mp hmbm with hold | hnew
    · exact Contents.rotation_ne_zero (hlive.symm ▸ hold : mbm ∈ base.liveBuses)
    · rw [List.mem_singleton.mp hnew]
      exact hadded

/-- In the end the handle lists what has been stored, or what was `current` before. -/
def Plan.Lists (plan : Plan) (current : Contents) : Prop :=
  ∃ m ∈ plan.cache, m.Lists (plan.stores.getLast?.getD current)

theorem exists_cached_iff {p : Contents → Prop} : (∃ m ∈ some c, p m) ↔ p c := by simp

/-- A handle that takes over what it has stored. -/
theorem Plan.lists_stored : (⟨[c], some c⟩ : Plan).Lists current ↔ c.Lists c := exists_cached_iff

/-- A handle that stays with what it has fetched. -/
theorem Plan.lists_stale (hlive : base.liveBuses = base.messageBuses) (revision : UInt64)
    (containers : List RecordContainerMeta) :
    (⟨[⟨revision, containers, base.messageBuses⟩], some base⟩ : Plan).Lists current ↔
      base.recordContainers.Perm containers := by
  refine exists_cached_iff.trans ⟨fun h => h.1, fun h => ⟨h, ?_⟩⟩
  change base.messageBuses.Perm base.liveBuses
  rw [hlive]

theorem updateRecordContainerSize_lists_iff (hlive : base.liveBuses = base.messageBuses)
    {which rotation newSize : UInt32}
    (hsucceeds : (updateRecordContainerSize which rotation newSize base).stores ≠ []) :
    (updateRecordContainerSize which rotation newSize base).Lists current ↔
      ∀ rcm ∈ base.recordContainers.find? fun rcm => rcm.sinkId = which ∧ rcm.rotation = rotation,
        rcm.byteSize = newSize := by
  rw [List.find?_eq_bind_findIdx?_getElem?]
  rw [updateRecordContainerSize] at hsucceeds ⊢
  split at hsucceeds
  · exact absurd rfl hsucceeds
  case h_2 i hi =>
    obtain ⟨hlt, -⟩ := List.findIdx?_eq_some_iff_getElem.mp hi
    have hget : base.recordContainers[i]? = some base.recordContainers[i] :=
      List.getElem?_eq_getElem hlt
    have hsize : { base.recordContainers[i] with byteSize := newSize } = base.recordContainers[i] ↔
        base.recordContainers[i].byteSize = newSize :=
      ⟨fun h => congrArg RecordContainerMeta.byteSize h.symm, fun h => h ▸ rfl⟩
    rw [hi, Option.bind_some, hget]
    refine (Plan.lists_stale hlive _ _).trans ((modify_perm_iff _ hget).trans (hsize.trans ?_))
    simp

/-- Pruning containers leaves the handle with the ones that it has fetched. -/
theorem transform_lists_iff {transformFn : List RecordContainerMeta → List RecordContainerMeta}
    {untouched : Prop} (hlive : base.liveBuses = base.messageBuses)
    (hshrinks : Shrinks (transformFn base.recordContainers) base.recordContainers untouched) :
    (transform transformFn base).Lists current ↔ untouched :=
  (Plan.lists_stale hlive _ _).trans (List.perm_comm.trans hshrinks.perm_iff)

theorem pruneMessageBuses_lists {file : Nat → BusFile} (hentries : base.SameEntries current)
    (hsucceeds : (pruneLoop file base.messageBuses.length 0 base).2.isSome) :
    (pruneMessageBuses file base).Lists current := by
  obtain ⟨contents, hcontents⟩ := Option.isSome_iff_exists.mp hsucceeds
  have hlast := (pruneLoop_spec file base.messageBuses.length 0 base).2 contents hcontents
  simp only [pruneMessageBuses, hcontents]
  refine ⟨_, rfl, ?_⟩
  rw [hlast]
  cases (pruneLoop file base.messageBuses.length 0 base).1.getLast? with
  | none => exact hentries
  | some last => exact ⟨.refl _, .refl _⟩

/-- The entries of the handle are those that are stored. -/
theorem plan_lists_iff (hlive : base.liveBuses = base.messageBuses)
    (hentries : base.SameEntries current) (hmutates : op.mutates = true)
    (hsucceeds : op.Succeeds base) : (op.plan base).Lists current ↔ op.Publishes base := by
  cases op with
  | fetchContent | unlinkAll => cases hmutates
  | createRecordContainer filename sinkId opens =>
    simp only [Operation.Succeeds, Operation.plan, createRecordContainer] at hsucceeds ⊢
    split at hsucceeds
    · exact absurd rfl hsucceeds
    · exact iff_of_true (Plan.lists_stored.mpr (lists_self hlive)) trivial
  | updateRecordContainerSize which rotation newSize =>
    exact updateRecordContainerSize_lists_iff hlive hsucceeds
  | pruneRecordContainersIf file =>
    have hshrinks := shrinks_pruneIf file base.recordContainers.zipIdx
    rw [List.zipIdx_map_fst] at hshrinks
    exact transform_lists_iff hlive hshrinks
  | pruneRecordContainers page maxFiles globalSize file =>
    have hshrinks := shrinks_visit page maxFiles globalSize file base.recordContainers.zipIdx
    rw [List.zipIdx_map_fst] at hshrinks
    exact transform_lists_iff hlive hshrinks
  | createMessageBus filename id magic processId opens =>
    simp only [Operation.Succeeds, Operation.Publishes, Operation.plan, createMessageBus]
      at hsucceeds ⊢
    split at hsucceeds
    · exact absurd rfl hsucceeds
    case h_2 rotation hrotation =>
      rw [hrotation]
      refine Plan.lists_stored.trans ((lists_added_iff hlive rfl).trans ?_)
      simp
  | removeMessageBus id rotation =>
    simp only [Operation.Succeeds, Operation.plan, removeMessageBus] at hsucceeds ⊢
    split at hsucceeds
    case isTrue hany =>
      have hkept := live_subset hlive (c := { base with
        messageBuses := base.messageBuses.filter fun mbm =>
          !(mbm.id = id ∧ mbm.rotation = rotation) })
        (List.filter_subset_self _)
      rw [if_pos hany]
      exact iff_of_true (Plan.lists_stored.mpr (lists_self hkept)) trivial
    case isFalse => exact absurd rfl hsucceeds
  | pruneMessageBuses file => exact iff_of_true (pruneMessageBuses_lists hentries hsucceeds) trivial
  | unlinkAllMessageBuses gone =>
    have hkept := live_subset hlive (base.unlinkMessageBuses_sublist gone).subset
    exact iff_of_true (Plan.lists_stored.mpr (lists_self hkept)) trivial
  | unlinkAllRecordContainers gone =>
    have hkept : (base.unlinkRecordContainers gone).liveBuses =
      (base.unlinkRecordContainers gone).messageBuses := hlive
    exact iff_of_true (Plan.lists_stored.mpr (lists_self hkept)) trivial

/-! ### Unlinking without a store -/

theorem Contents.unlinkMessageBuses_same {gone : Nat → Bool}
    (hlive : base.liveBuses = base.messageBuses)
    (h : ¬Erases MessageBusMeta.rotation gone base.messageBuses) :
    (base.unlinkMessageBuses gone).Same base := by
  have hkept := live_subset hlive (base.unlinkMessageBuses_sublist gone).subset
  refine ⟨rfl, .refl _, ?_⟩
  rw [hkept, hlive]
  exact (base.unlinkMessageBuses_perm_iff gone).mpr h

theorem Contents.unlinkRecordContainers_same {gone : Nat → Bool}
    (h : ¬Erases RecordContainerMeta.rotation gone base.recordContainers) :
    (base.unlinkRecordContainers gone).Same base :=
  ⟨rfl, (base.unlinkRecordContainers_perm_iff gone).mpr h, .refl _⟩

/-- If a store fails, the handle has what it has fetched, unless it has unlinked something. -/
theorem unstored_same (hlive : base.liveBuses = base.messageBuses) (h : ¬op.Unlinks base) :
    ∀ m ∈ op.unstored base, m.Same base := by
  cases op with
  | unlinkAllMessageBuses gone =>
    rintro m ⟨⟩
    exact Contents.unlinkMessageBuses_same hlive h
  | unlinkAllRecordContainers gone =>
    rintro m ⟨⟩
    exact Contents.unlinkRecordContainers_same h
  | unlinkAll containerGone busGone rootUnlinked =>
    obtain ⟨hcontainers, hbuses⟩ := not_or.mp h
    have hsame : ((base.unlinkRecordContainers containerGone).unlinkMessageBuses busGone).Same
        (base.unlinkRecordContainers containerGone) :=
      Contents.unlinkMessageBuses_same hlive hbuses
    simp only [Operation.unstored, Operation.inPlace, if_true, Operation.plan]
    split
    · rintro m ⟨⟩
    · rintro m ⟨⟩
      exact hsame.trans (Contents.unlinkRecordContainers_same hcontainers)
  | _ =>
    rintro m ⟨⟩
    exact .rfl

/-- Operations in place that do not notice that their store has failed. -/
theorem unstored_lists_iff (hlive : base.liveBuses = base.messageBuses)
    (hentries : base.SameEntries current) (hmutates : op.mutates = true) (hop : op.inPlace = true) :
    (∃ m ∈ op.unstored base, m.Lists current) ↔ ¬op.Unlinks base := by
  have hkeeps : ∀ m ∈ op.unstored base, m.liveBuses = m.messageBuses →
      ¬op.Unlinks base → m.Lists current := fun m hm hm' hnot =>
    .of_same hm' ((unstored_same hlive hnot m hm).2.trans hentries)
  cases op with
  | unlinkAllMessageBuses gone =>
    refine exists_cached_iff.trans ⟨fun h => ?_, hkeeps _ rfl ?_⟩
    · refine (base.unlinkMessageBuses_perm_iff gone).mp (h.2.trans ?_)
      rw [← hlive]
      exact hentries.2.symm
    · exact live_subset hlive (base.unlinkMessageBuses_sublist gone).subset
  | unlinkAllRecordContainers gone =>
    refine exists_cached_iff.trans ⟨fun h => ?_, hkeeps _ rfl hlive⟩
    exact (base.unlinkRecordContainers_perm_iff gone).mp (h.1.trans hentries.1.symm)
  | unlinkAll => cases hmutates
  | _ => cases hop

/-! ## The file behind an operation -/

/-- What a handle has fetched: the entries that the file holds, with their revision. -/
structure Basis (base current : Contents) : Prop where
  version : base.version = current.version
  entries : base.SameEntries current
  live : base.liveBuses = base.messageBuses
  zero : current.version = 0 → base = {}

theorem Successive.take {stores : List Contents} (h : Successive base stores) (n : Nat) :
    Successive base (stores.take n) := by
  induction stores generalizing base n with
  | nil => rwa [List.take_nil]
  | cons c rest ih =>
    cases n with
    | zero => trivial
    | succ n => exact ⟨h.1, ih h.2 n⟩

theorem Contents.eq_empty (hlive : c.liveBuses = c.messageBuses) (hversion : c.version = 0)
    (h : c.SameEntries {}) : c = {} := by
  have hrevision : c.revision = 0 := UInt64.toNat_inj.mp hversion
  have hcontainers : c.recordContainers = [] := h.1.eq_nil
  have hbuses : c.messageBuses = [] := hlive.symm.trans h.2.eq_nil
  cases c
  simp only at hrevision hcontainers hbuses
  rw [hrevision, hcontainers, hbuses]

section

variable {stores : List Contents} {n : Nat}

/-- The version of what has been stored last. -/
theorem Basis.version_last (h : Basis base current) (hsucc : Successive base stores)
    (hroom : base.version + stores.length < 2 ^ 64) :
    (stores.getLast?.getD current).version = current.version + stores.length := by
  have hlast := hsucc.version_last hroom
  cases hl : stores.getLast? with
  | none => simp [List.getLast?_eq_none_iff.mp hl]
  | some last => rw [Option.getD_some, hlast last hl, h.version]

/-- Older contents do no harm where newer ones have been stored. -/
theorem Basis.fresh_last (h : Basis base current) (hsucc : Successive base stores)
    (hroom : base.version + stores.length < 2 ^ 64) :
    Versioned.Fresh Contents.version Contents.SameEntries (stores.getLast?.getD current) base := by
  have hversion := h.version_last hsucc hroom
  have hbase := h.version
  cases stores with
  | nil => exact ⟨hbase.le, fun _ => h.entries⟩
  | cons c rest =>
    rw [List.length_cons] at hversion
    exact Versioned.Fresh.publish hbase.le (by omega)

/-- What the handle caches is not ahead of what has been stored, and has the same entries if it has
the same revision. -/
theorem Basis.fresh_cache (h : Basis base current)
    (hroom : op.inPlace = false → base.version + (op.plan base).stores.length < 2 ^ 64) :
    ∀ m ∈ (op.plan base).cache, Versioned.Fresh Contents.version Contents.SameEntries
      ((op.plan base).stores.getLast?.getD current) m := by
  intro m hm
  cases hop : op.inPlace with
  | true =>
    obtain ⟨c, hstores, -, -, hcache⟩ := plan_inPlace base hop
    rw [hstores, hcache m hm]
    exact .self (fun _ => Contents.SameEntries.rfl) c
  | false =>
    obtain ⟨m', hm', hcache⟩ := plan_cache base hop h.live
    cases hm'.symm.trans hm
    rcases hcache with rfl | ⟨last, hlast, hsame⟩
    · exact h.fresh_last (plan_successive _ hop) (hroom hop)
    · rw [hlast]
      exact ⟨(Contents.version_eq_iff.mpr hsame.1).le, fun _ => hsame.2⟩

theorem room_take (hroom : base.version + stores.length < 2 ^ 64) (n : Nat) :
    base.version + (stores.take n).length < 2 ^ 64 := by
  have := (List.take_sublist n stores).length_le
  omega

/-- The same if only the first of the stores are completed. -/
theorem Basis.fresh_unstored (h : Basis base current)
    (hroom : op.inPlace = false → base.version + (op.plan base).stores.length < 2 ^ 64)
    (hunlinks : ¬op.Unlinks base) (n : Nat) :
    ∀ m ∈ op.unstored base, Versioned.Fresh Contents.version Contents.SameEntries
      (((op.plan base).stores.take n).getLast?.getD current) m := by
  intro m hm
  obtain ⟨hrevision, hentries⟩ := unstored_same h.live hunlinks m hm
  cases hop : op.inPlace with
  | true =>
    obtain ⟨c, hstores, -, -, hcache⟩ := plan_inPlace base hop
    rw [hstores]
    cases n with
    | zero =>
      have hversion : m.version = current.version :=
        (Contents.version_eq_iff.mpr hrevision).trans h.version
      exact ⟨hversion.le, fun _ => hentries.trans h.entries⟩
    | succ n =>
      rw [Operation.unstored, if_pos hop] at hm
      rw [hcache m hm, List.take_succ_cons, List.take_nil]
      exact .self (fun _ => Contents.SameEntries.rfl) c
  | false =>
    rw [Operation.unstored, if_neg (by simp [hop])] at hm
    cases hm
    exact h.fresh_last ((plan_successive _ hop).take n) (room_take (hroom hop) n)

end

end Operations

section Files

variable {codec : ContentsCodec} {f f' : File} {base current cached : Contents} {op : Operation}
  {n : Nat}

/-- The file holds the contents that a new handle fetches. -/
structure ContentsCodec.Holds (codec : ContentsCodec) (f : File) (current : Contents) : Prop where
  represents : ∃ previous, codec.Represents f current previous
  zero : current.version = 0 → current = {}

theorem ContentsCodec.Holds.refresh_empty (h : codec.Holds f current) :
    Versioned.refresh Contents.version current {} = current := by
  rw [Versioned.refresh]
  split
  · rfl
  case isFalse hzero => exact (h.zero (Nat.eq_zero_of_not_pos hzero)).symm

theorem ContentsCodec.Holds.fileDatabase (h : codec.Holds f current) :
    codec.fileDatabase f = some (f, current.arrange) := by
  obtain ⟨previous, hrep⟩ := h.represents
  rw [hrep.fileDatabase, h.refresh_empty]

theorem ContentsCodec.Holds.fetch (h : codec.Holds f current)
    (hfresh : Versioned.Fresh Contents.version Contents.SameEntries current cached) :
    ∃ base, codec.fetchContentImpl f cached = some base ∧ Basis base current := by
  obtain ⟨previous, hrep⟩ := h.represents
  refine ⟨_, hrep.fetch hfresh.1, ?_⟩
  have hversion : (Versioned.refresh Contents.version current cached).arrange.version =
      current.version := Versioned.version_refresh hfresh.1
  have hentries : (Versioned.refresh Contents.version current cached).arrange.SameEntries current :=
    (Contents.arrange_same _).2.trans (hfresh.refresh fun _ => Contents.SameEntries.rfl)
  have hlive := Contents.liveBuses_arrange (Versioned.refresh Contents.version current cached)
  refine ⟨hversion, hentries, hlive, fun hzero => ?_⟩
  exact Contents.eq_empty hlive (hversion.trans hzero) (h.zero hzero ▸ hentries)

/-- The file behind the first stores of an operation. -/
theorem ContentsCodec.Holds.storeAll (h : codec.Holds f current) (hbase : Basis base current)
    (hroom : op.inPlace = false → base.version + (op.plan base).stores.length < 2 ^ 64)
    (hstore : RootFile.storeAll codec f ((op.plan base).stores.take n) = some f') :
    codec.Holds f' (((op.plan base).stores.take n).getLast?.getD current) := by
  obtain ⟨previous, hrep⟩ := h.represents
  cases hop : op.inPlace with
  | true =>
    obtain ⟨c, hstores, hrevision, hempty, -⟩ := plan_inPlace base hop
    have hversion : c.version = current.version :=
      (Contents.version_eq_iff.mpr hrevision).trans hbase.version
    rw [hstores] at hstore ⊢
    cases n with
    | zero =>
      cases hstore
      exact h
    | succ n =>
      rw [List.take_succ_cons, List.take_nil] at hstore ⊢
      rw [RootFile.storeAll_singleton] at hstore
      refine ⟨⟨previous, hrep.retire_same hversion hstore⟩, fun hzero => ?_⟩
      exact hempty (hbase.zero (hversion.symm.trans hzero))
  | false =>
    have hsucc := (plan_successive base hop).take n
    have hroom := room_take (hroom hop) n
    have hversion := hbase.version_last hsucc hroom
    refine ⟨RootFile.storeAll_next hrep hbase.version hsucc hroom hstore, fun hzero => ?_⟩
    have hnil : (op.plan base).stores.take n = [] := List.length_eq_zero_iff.mp (by omega)
    rw [hnil] at hzero ⊢
    exact h.zero hzero

end Files

/-! ## Runs of one handle -/

/-- The event is an operation of the handle. -/
def Event.By (handle : Nat) : Event → Prop
  | .action (.operate h _) | .failing h _ _ => h = handle
  | _ => False

namespace RootFile

variable (codec : ContentsCodec)

/-- A handle as `file_database` returns it: for a new file, or for one on which any handles have
operated. -/
inductive Opened : RootFile → Nat → Prop
  | created {db : RootFile} : create codec = some db → Opened db 0
  | opened {db₀ db db' : RootFile} {actions : List Action} : create codec = some db₀ →
      Runs.Along (step codec) (fun action db => View.Room action db.toView) actions db₀ →
      Runs.run (step codec) actions db₀ = some db → step codec .openFile db = some db' →
      Opened db' db.handles.length

/-- The revision does not overflow. -/
def EventRoom : Event → RootFile → Prop
  | .action (.operate handle op), db | .failing handle op _, db =>
    ∀ base ∈ db.fetched codec handle, op.inPlace = false →
      base.version + (op.plan base).stores.length < 2 ^ 64
  | _, _ => True

/-- An operation whose store fails has unlinked nothing. -/
def Retires : Event → RootFile → Prop
  | .failing handle op _, db => ∀ base ∈ db.fetched codec handle, ¬op.Unlinks base
  | _, _ => True

/-- A mutating operation ends with success. Those that unlink ignore that their store fails. -/
def EventSucceeds : Event → RootFile → Prop
  | .action (.operate handle op), db =>
    op.mutates = true ∧ ∃ base ∈ db.fetched codec handle, op.Succeeds base
  | .failing handle op stored, db =>
    op.mutates = true ∧ op.inPlace = true ∧ stored = 0 ∧
      ∃ base ∈ db.fetched codec handle, op.Succeeds base
  | _, _ => False

def EventPublishes : Event → RootFile → Prop
  | .action (.operate handle op), db => ∀ base ∈ db.fetched codec handle, op.Publishes base
  | event, db => Retires codec event db

/-- The handle lists what a handle fetches that is opened now. -/
def UpToDate (db : RootFile) (handle : Nat) : Prop :=
  ∃ cached ∈ db.cached handle, ∃ fresh, codec.fileDatabase db.file = some (db.file, fresh) ∧
    cached.recordContainers.Perm fresh.recordContainers ∧
    cached.messageBuses.Perm fresh.messageBuses

/-- The handle is not ahead of what the file holds, and has its entries if it has its revision. -/
structure Tracks (db : RootFile) (handle : Nat) (current : Contents) : Prop where
  holds : codec.Holds db.file current
  fresh : ∀ cached ∈ db.cached handle,
    Versioned.Fresh Contents.version Contents.SameEntries current cached

variable {codec} {db db' db₀ : RootFile} {handle : Nat} {event : Event} {events : List Event}
  {op : Operation} {base current : Contents}

theorem upToDate_iff (h : codec.Holds db.file current) :
    db.UpToDate codec handle ↔ ∃ m ∈ db.cached handle, m.Lists current := by
  have hcontainers : current.arrange.recordContainers.Perm current.recordContainers :=
    current.arrange_same.2.1
  have hbuses := current.messageBuses_arrange
  constructor
  · rintro ⟨m, hm, fresh, hopen, hlists⟩
    cases h.fileDatabase.symm.trans hopen
    exact ⟨m, hm, hlists.1.trans hcontainers, hlists.2.trans hbuses⟩
  · rintro ⟨m, hm, hlists⟩
    exact ⟨m, hm, _, h.fileDatabase, hlists.1.trans hcontainers.symm, hlists.2.trans hbuses.symm⟩

theorem Tracks.fetched (h : db.Tracks codec handle current)
    (hbase : db.fetched codec handle = some base) : Basis base current := by
  obtain ⟨cached, hcached, hfetch⟩ := Option.bind_eq_some_iff.mp hbase
  obtain ⟨base', hfetch', hbasis⟩ := h.holds.fetch (h.fresh cached hcached)
  cases hfetch.symm.trans hfetch'
  exact hbasis

theorem cached_set (hbase : db.fetched codec handle = some base) (cache : Option Contents) :
    (db.handles.set handle cache)[handle]?.join = cache := by
  obtain ⟨cached, hcached, -⟩ := Option.bind_eq_some_iff.mp hbase
  have hlt : handle < db.handles.length := by
    by_contra hnot
    rw [View.cached, List.getElem?_eq_none (Nat.le_of_not_lt hnot)] at hcached
    cases hcached
  rw [List.getElem?_set_self hlt]
  rfl

/-- An operation, all of whose stores are completed. -/
theorem Tracks.operate (h : db.Tracks codec handle current)
    (hroom : EventRoom codec (.action (.operate handle op)) db)
    (hstep : stepEvent codec (.action (.operate handle op)) db = some db') :
    ∃ base, db.fetched codec handle = some base ∧ Basis base current ∧
      db'.cached handle = (op.plan base).cache ∧
      codec.Holds db'.file ((op.plan base).stores.getLast?.getD current) := by
  obtain ⟨base, hbase, hstep⟩ := Option.bind_eq_some_iff.mp hstep
  obtain ⟨f', hstore, rfl⟩ := Option.map_eq_some_iff.mp hstep
  have hbasis := h.fetched hbase
  refine ⟨base, hbase, hbasis, cached_set hbase _, ?_⟩
  rw [← List.take_length (l := (op.plan base).stores)] at hstore ⊢
  exact h.holds.storeAll hbasis (hroom base hbase) hstore

/-- An operation, one of whose stores fails. -/
theorem Tracks.fail {stored : Nat} (h : db.Tracks codec handle current)
    (hroom : EventRoom codec (.failing handle op stored) db)
    (hstep : stepEvent codec (.failing handle op stored) db = some db') :
    ∃ base, db.fetched codec handle = some base ∧ Basis base current ∧
      db'.cached handle = op.unstored base ∧
      codec.Holds db'.file (((op.plan base).stores.take stored).getLast?.getD current) := by
  obtain ⟨base, hbase, hstep⟩ := Option.bind_eq_some_iff.mp hstep
  obtain ⟨f', hstore, rfl⟩ := Option.map_eq_some_iff.mp hstep
  have hbasis := h.fetched hbase
  exact ⟨base, hbase, hbasis, cached_set hbase _,
    h.holds.storeAll hbasis (hroom base hbase) hstore⟩

theorem Tracks.step (h : db.Tracks codec handle current) (hby : event.By handle)
    (hroom : EventRoom codec event db) (hretires : Retires codec event db)
    (hstep : stepEvent codec event db = some db') :
    ∃ current', db'.Tracks codec handle current' := by
  match event with
  | .action (.operate _ op) =>
    cases hby
    obtain ⟨base, hbase, hbasis, hcached, hholds⟩ := h.operate hroom hstep
    exact ⟨_, hholds, hcached ▸ hbasis.fresh_cache (hroom base hbase)⟩
  | .failing _ op stored =>
    cases hby
    obtain ⟨base, hbase, hbasis, hcached, hholds⟩ := h.fail hroom hstep
    exact ⟨_, hholds, hcached ▸ hbasis.fresh_unstored (hroom base hbase)
      (hretires base hbase) stored⟩

theorem Sound.holds (h : db.Sound codec) : codec.Holds db.file db.stored :=
  ⟨h.represents, h.ok.stored_zero⟩

theorem Opened.tracks (h : Opened codec db handle) : ∃ current, db.Tracks codec handle current := by
  cases h with
  | created hcreate =>
    exact ⟨db.stored, (create_sound hcreate).holds, (create_current hcreate).fresh 0⟩
  | @opened db₀ before _ actions hcreate hroom hrun hopen =>
    have hsound := (create_sound hcreate).run hroom hrun
    rw [RootFile.step, hsound.holds.fileDatabase] at hopen
    split at hopen <;> cases hopen
    refine ⟨before.stored, hsound.holds, fun cached hcached => ?_⟩
    have hlast : cached = before.stored.arrange := by
      simpa [View.cached, View.attach, eq_comm] using hcached
    rw [hlast]
    exact ⟨le_rfl, fun _ => (Contents.arrange_same _).2⟩

/-- The handle is up to date exactly if its operation publishes what it has stored. -/
theorem Tracks.upToDate_iff (h : db.Tracks codec handle current) (hby : event.By handle)
    (hroom : EventRoom codec event db) (hsucceeds : EventSucceeds codec event db)
    (hstep : stepEvent codec event db = some db') :
    db'.UpToDate codec handle ↔ EventPublishes codec event db := by
  match event with
  | .action (.operate _ op) =>
    cases hby
    obtain ⟨base, hbase, hbasis, hcached, hholds⟩ := h.operate hroom hstep
    obtain ⟨hmutates, base', hbase', hsucceeds⟩ := hsucceeds
    cases hbase.symm.trans hbase'
    have hpublishes : EventPublishes codec (.action (.operate handle op)) db ↔
        op.Publishes base := by
      simp [EventPublishes, hbase]
    rw [RootFile.upToDate_iff hholds, hcached, hpublishes]
    exact plan_lists_iff hbasis.live hbasis.entries hmutates hsucceeds
  | .failing _ op stored =>
    cases hby
    obtain ⟨base, hbase, hbasis, hcached, hholds⟩ := h.fail hroom hstep
    obtain ⟨hmutates, hop, rfl, -⟩ := hsucceeds
    have hpublishes : EventPublishes codec (.failing handle op 0) db ↔ ¬op.Unlinks base := by
      simp [EventPublishes, Retires, hbase]
    rw [RootFile.upToDate_iff hholds, hcached, hpublishes]
    exact unstored_lists_iff hbasis.live hbasis.entries hmutates hop

theorem Sound.eventRoom {action : Action} (h : db.Sound codec)
    (hroom : View.Room action db.toView) : EventRoom codec (.action action) db := by
  cases action with
  | openFile | clone => trivial
  | operate handle op =>
    intro base hbase
    rw [h.fetched] at hbase
    obtain ⟨cached, hcached, rfl⟩ := Option.map_eq_some_iff.mp hbase
    rw [View.version_basis (h.ok.cached_le handle cached hcached)]
    exact hroom cached hcached

theorem Opened.tracks_run (h : Opened codec db₀ handle) (hby : ∀ event ∈ events, event.By handle)
    (hretires : Runs.Along (stepEvent codec)
      (fun event db => EventRoom codec event db ∧ Retires codec event db) events db₀)
    (hrun : Runs.run (stepEvent codec) events db₀ = some db) :
    ∃ current, db.Tracks codec handle current := by
  have hkeeps : ∀ (event : Event) (db db' : RootFile),
      (event.By handle ∧ EventRoom codec event db ∧ Retires codec event db) →
      (∃ current, db.Tracks codec handle current) → stepEvent codec event db = some db' →
      ∃ current, db'.Tracks codec handle current := by
    rintro event db db' ⟨hby, hroom, hretires⟩ ⟨current, htracks⟩ hstep
    exact htracks.step hby hroom hretires hstep
  have hend := Runs.invariant hkeeps (hretires.and_forall hby) h.tracks hrun
  exact hend

def createOwn : Action := .operate 0 (.createRecordContainer (fun _ => [99]) 7 [.opened])

def sizeOwn : Action := .operate 0 (.updateRecordContainerSize 7 1 100)

/-- The container as the handle lists it. -/
def createdOwn : Contents where
  revision := 1
  recordContainers := [⟨[99], 0, 7, 1⟩]

theorem createOwn_view : Runs.run (View.step Plain.codec) [createOwn] View.created = some {
    handles := [some createdOwn]
    linked := true
    stored := createdOwn
    left := createdOwn } := by
  decide +kernel

/-- A container is created, and its size is updated. -/
theorem sizeOwn_run : ∃ db₀ db db', Opened Plain.codec db₀ 0 ∧
    Runs.Along (stepEvent Plain.codec) (fun event db => EventRoom Plain.codec event db ∧
      Retires Plain.codec event db) [.action createOwn] db₀ ∧
    EventSucceeds Plain.codec (.action createOwn) db₀ ∧
    Runs.run (stepEvent Plain.codec) [.action createOwn] db₀ = some db ∧
    EventRoom Plain.codec (.action sizeOwn) db ∧ EventSucceeds Plain.codec (.action sizeOwn) db ∧
    stepEvent Plain.codec (.action sizeOwn) db = some db' ∧
    ¬EventPublishes Plain.codec (.action sizeOwn) db := by
  have hfits : Plain.codec.Fits {} := by decide +kernel
  obtain ⟨db₀, hcreate, hcreated⟩ := create_of_fits hfits
  have hsound := create_sound hcreate
  have hroom : Runs.Along (View.step Plain.codec) View.Room ([createOwn] ++ [sizeOwn])
      View.created := by
    decide +kernel
  obtain ⟨hfirst, hsecond⟩ := hroom.append createOwn_view
  have hview := createOwn_view
  rw [← hcreated] at hfirst hview
  obtain ⟨db, hrun, hdb, hend⟩ := hsound.run_of_view hfirst hview
  have hfirstFetched : db₀.fetched Plain.codec 0 = some {} := by
    rw [hsound.fetched, hcreated]
    decide +kernel
  have hfetched : db.fetched Plain.codec 0 = some createdOwn := by
    rw [hend.fetched, hdb]
    decide +kernel
  have hstep : (View.step Plain.codec sizeOwn db.toView).isSome := by
    rw [hdb]
    decide +kernel
  rw [← hend.step_toView, Option.isSome_map] at hstep
  obtain ⟨db', hstep⟩ := Option.isSome_iff_exists.mp hstep
  have halong : Runs.Along (stepEvent Plain.codec) (fun event db => EventRoom Plain.codec event db ∧
      Retires Plain.codec event db) [.action createOwn] db₀ :=
    hsound.along_events (fun _ _ h hroom => ⟨hroom, h.eventRoom hroom, trivial⟩) hfirst
  refine ⟨db₀, db, db', .created hcreate, halong, ?_, ?_, ?_, ?_, hstep, ?_⟩
  · have hstores : ((Operation.createRecordContainer (fun _ => [99]) 7 [.opened]).plan {}).stores ≠
        [] := by
      decide
    exact ⟨rfl, {}, hfirstFetched, hstores⟩
  · exact (run_actions [createOwn] db₀).trans hrun
  · exact hend.eventRoom (hdb ▸ hsecond.1)
  · have hstores : ((Operation.updateRecordContainerSize 7 1 100).plan createdOwn).stores ≠ [] := by
      decide
    exact ⟨rfl, createdOwn, hfetched, hstores⟩
  · intro hpublishes
    have hsize := hpublishes createdOwn hfetched ⟨[99], 0, 7, 1⟩ (by decide)
    cases hsize

/-- In every run of the operations of one handle, it is up to date behind a successful operation if
and only if the operation publishes what it has stored. -/
theorem own_changes_seen_iff (hopened : Opened codec db₀ handle)
    (hby : ∀ event ∈ events, event.By handle)
    (hretires : Runs.Along (stepEvent codec)
      (fun event db => EventRoom codec event db ∧ Retires codec event db) events db₀)
    (hrun : Runs.run (stepEvent codec) events db₀ = some db) (hown : event.By handle)
    (hroom : EventRoom codec event db) (hsucceeds : EventSucceeds codec event db)
    (hstep : stepEvent codec event db = some db') :
    db'.UpToDate codec handle ↔ EventPublishes codec event db := by
  obtain ⟨current, htracks⟩ := hopened.tracks_run hby hretires hrun
  exact htracks.upToDate_iff hown hroom hsucceeds hstep

/-- The handle lists the new container, and then not its size. -/
theorem own_changes_seen_iff_sizeOwn : ∃ db₀ db db', Opened Plain.codec db₀ 0 ∧
    Runs.run (stepEvent Plain.codec) [.action createOwn] db₀ = some db ∧
    db.UpToDate Plain.codec 0 ∧ stepEvent Plain.codec (.action sizeOwn) db = some db' ∧
    ¬db'.UpToDate Plain.codec 0 := by
  obtain ⟨db₀, db, db', hopened, hretires, hcreates, hrun, hroom, hsucceeds, hstep, hnot⟩ :=
    sizeOwn_run
  have hby : ∀ event ∈ [Event.action createOwn], event.By 0 := by simp [createOwn, Event.By]
  have hcreate : stepEvent Plain.codec (.action createOwn) db₀ = some db := by
    obtain ⟨next, hcreate, hrest⟩ := Runs.run_cons_eq_some.mp hrun
    cases hrest
    exact hcreate
  have hbefore : ∀ event ∈ ([] : List Event), event.By 0 := by simp
  have hcreated : db.UpToDate Plain.codec 0 :=
    (own_changes_seen_iff hopened hbefore trivial rfl (hby _ (by simp)) hretires.1.1 hcreates
      hcreate).mpr fun _ _ => trivial
  have hown : (Event.action sizeOwn).By 0 := rfl
  have hsized := own_changes_seen_iff hopened hby hretires hrun hown hroom hsucceeds hstep
  exact ⟨db₀, db, db', hopened, hrun, hcreated, hstep, mt hsized.mp hnot⟩

/-- The handle still lists the container without its size. -/
theorem own_changes_not_seen : ¬∀ (codec : ContentsCodec) (db₀ db db' : RootFile) (handle : Nat)
    (events : List Event) (event : Event), Opened codec db₀ handle →
    (∀ event ∈ events, event.By handle) →
    Runs.Along (stepEvent codec) (fun event db => EventRoom codec event db ∧
      Retires codec event db) events db₀ →
    Runs.run (stepEvent codec) events db₀ = some db → event.By handle →
    EventRoom codec event db → EventSucceeds codec event db →
    stepEvent codec event db = some db' → db'.UpToDate codec handle := by
  intro h
  obtain ⟨db₀, db, db', hopened, hretires, -, hrun, hroom, hsucceeds, hstep, hnot⟩ := sizeOwn_run
  have hby : ∀ event ∈ [Event.action createOwn], event.By 0 := by simp [createOwn, Event.By]
  have hown : (Event.action sizeOwn).By 0 := rfl
  obtain ⟨current, htracks⟩ := hopened.tracks_run hby hretires hrun
  refine hnot ((htracks.upToDate_iff hown hroom hsucceeds hstep).mp ?_)
  exact h Plain.codec db₀ db db' 0 _ _ hopened hby hretires hrun hown hroom hsucceeds hstep

end RootFile

end Deeplog.Database

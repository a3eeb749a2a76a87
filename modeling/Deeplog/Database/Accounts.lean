import Deeplog.Database.Limits

/-!
# What an operation does to the entries

Which of the entries that an operation has fetched it keeps, with which size, and which entries it
adds. Whatever it keeps or adds is up to its arguments and to what it finds in the file system: a
bus is removed under its id and rotation, pruning goes by the state of each file, unlinking by the
files that are gone.
-/

namespace Deeplog.Database

/-! ## Pruned buses -/

/-- Pruning ends at the bus: the deadline has passed, or the recovered file has failed. -/
def endsAt (file : Nat → BusFile) (visited : MessageBusMeta × Nat) : Bool :=
  match file visited.2 with
  | .timedOut => true
  | .failed => visited.1.magic = mpscMagic
  | _ => false

/-- The buses that pruning gets done with. -/
def prunedBuses (file : Nat → BusFile) (all : List (MessageBusMeta × Nat)) :
    List (MessageBusMeta × Nat) :=
  all.takeWhile (!endsAt file ·)

/-- The messages of the bus are in a container now. -/
def isRecovered (file : Nat → BusFile) (visited : MessageBusMeta × Nat) : Bool :=
  match file visited.2 with
  | .recovered => visited.1.magic = mpscMagic
  | _ => false

/-- The bus has been recovered, or there was no file any more. -/
def isErased (file : Nat → BusFile) (visited : MessageBusMeta × Nat) : Bool :=
  match file visited.2 with
  | .recovered | .missing => visited.1.magic = mpscMagic
  | _ => false

/-- The container of a recovered bus. -/
def RecoveredInto (bus : MessageBusMeta × Nat) (rcm : RecordContainerMeta) : Prop :=
  ∃ rotation, rcm =
    ⟨bus.1.path ++ s!".{FileSinkId.recovered}.{rotation}.dlog".toUTF8.toList, 0,
      .recovered, rotation⟩

/-! ## Entries -/

/-- What pruning with a predicate makes of the entry of a container. -/
def pruneEntry (file : Nat → ContainerFile) (visited : RecordContainerMeta × Nat) :
    Option RecordContainerMeta :=
  match file visited.2 with
  | .missing => none
  | .unavailable => some visited.1
  | .available extent prune =>
    if prune then none else some (sanitizeContainerByteSize extent visited.1)

/-- The entries whose files are not gone, without those that are marked as erased. -/
def remaining {α : Type} (rotation : α → UInt32) (gone : Nat → Bool) (entries : List α) : List α :=
  (entries.zipIdx.filter fun visited => !gone visited.2 && rotation visited.1 ≠ 0).map Prod.fst

/-- Unlinking erases an entry: its file is gone, or its rotation marks it as erased. -/
def Erases {α : Type} (rotation : α → UInt32) (gone : Nat → Bool) (entries : List α) : Prop :=
  ∃ i, ∃ a ∈ entries[i]?, gone i = true ∨ rotation a = 0

def Operation.Unlinks : Operation → Contents → Prop
  | unlinkAllMessageBuses gone, base => Erases MessageBusMeta.rotation gone base.messageBuses
  | unlinkAllRecordContainers gone, base =>
    Erases RecordContainerMeta.rotation gone base.recordContainers
  | unlinkAll containerGone busGone _, base =>
    Erases RecordContainerMeta.rotation containerGone base.recordContainers ∨
      Erases MessageBusMeta.rotation busGone base.messageBuses
  | _, _ => False

/-- What an operation keeps of the containers that it has fetched. -/
def Operation.KeepsContainers (containers kept : List RecordContainerMeta) : Operation → Prop
  | updateRecordContainerSize which rotation newSize =>
    (∀ rcm ∈ containers, ¬(rcm.sinkId = which ∧ rcm.rotation = rotation)) ∧ kept = containers ∨
    ∃ i, ∃ rcm ∈ containers[i]?, (rcm.sinkId = which ∧ rcm.rotation = rotation) ∧
      kept = containers.set i { rcm with byteSize := newSize }
  | pruneRecordContainersIf file => kept = containers.zipIdx.filterMap (pruneEntry file)
  | pruneRecordContainers page maxFiles globalSize file =>
    let sizes := availableSizes page file containers.zipIdx
    ∃ k, IsLeast {k | k = sizes.length ∨ Stops maxFiles globalSize sizes k} k ∧
      kept = named (keepRun page file k containers.zipIdx)
  | unlinkAllRecordContainers gone | unlinkAll gone .. =>
    kept = remaining RecordContainerMeta.rotation gone containers
  | _ => kept = containers

/-- Which containers it adds. Without a new file nothing is stored. -/
def Operation.AddsContainers (base : Contents) (added : List RecordContainerMeta) :
    Operation → Prop
  | createRecordContainer filename sinkId opens =>
    ((createRecordContainer filename sinkId opens).plan base).stores = [] ∧ added = [] ∨
    ∃ rotation, added = [⟨filename rotation, 0, sinkId, rotation⟩]
  | pruneMessageBuses file =>
    let pruned := prunedBuses file base.messageBuses.zipIdx
    List.Forall₂ RecoveredInto (pruned.filter (isRecovered file)) added
  | _ => added = []

/-- What it keeps of the buses. -/
def Operation.KeepsBuses (buses kept : List MessageBusMeta) : Operation → Prop
  | removeMessageBus id rotation =>
    kept = buses.filter fun mbm => ¬(mbm.id = id ∧ mbm.rotation = rotation)
  | pruneMessageBuses file =>
    kept = ((prunedBuses file buses.zipIdx).filter (!isErased file ·)).map Prod.fst ++
      buses.drop (prunedBuses file buses.zipIdx).length
  | unlinkAllMessageBuses gone | unlinkAll _ gone _ =>
    kept = remaining MessageBusMeta.rotation gone buses
  | _ => kept = buses

/-- Which buses it adds. -/
def Operation.AddsBuses (base : Contents) (added : List MessageBusMeta) : Operation → Prop
  | createMessageBus filename id magic processId opens =>
    ((createMessageBus filename id magic processId opens).plan base).stores = [] ∧ added = [] ∨
    ∃ rotation, added = [⟨filename rotation, magic, id, rotation, processId⟩]
  | _ => added = []

/-- The entries afterwards are those that the operation keeps and those that it adds. -/
structure Operation.Accounts (op : Operation) (base after : Contents) : Prop where
  containers : ∃ kept added, op.KeepsContainers base.recordContainers kept ∧
    op.AddsContainers base added ∧ after.recordContainers.Perm (kept ++ added)
  buses : ∃ kept added, op.KeepsBuses base.messageBuses kept ∧ op.AddsBuses base added ∧
    after.messageBuses.Perm (kept ++ added)

section

variable {base after after' : Contents} {op : Operation}

theorem Operation.Accounts.of_perm (h : op.Accounts base after)
    (hcontainers : after'.recordContainers.Perm after.recordContainers)
    (hbuses : after'.messageBuses.Perm after.messageBuses) : op.Accounts base after' where
  containers :=
    have ⟨kept, added, hkept, hadded, hperm⟩ := h.containers
    ⟨kept, added, hkept, hadded, hcontainers.trans hperm⟩
  buses :=
    have ⟨kept, added, hkept, hadded, hperm⟩ := h.buses
    ⟨kept, added, hkept, hadded, hbuses.trans hperm⟩

/-- An operation on the containers that leaves the buses alone. -/
theorem Operation.Accounts.of_containers {kept added : List RecordContainerMeta}
    (hkept : op.KeepsContainers base.recordContainers kept)
    (hadded : op.AddsContainers base added)
    (hcontainers : after.recordContainers = kept ++ added)
    (hbuses : after.messageBuses = base.messageBuses)
    (hkeeps : op.KeepsBuses base.messageBuses base.messageBuses) (hadds : op.AddsBuses base []) :
    op.Accounts base after where
  containers := ⟨kept, added, hkept, hadded, .of_eq hcontainers⟩
  buses := ⟨base.messageBuses, [], hkeeps, hadds, .of_eq (by rw [hbuses, List.append_nil])⟩

/-- An operation on the buses that leaves the containers alone. -/
theorem Operation.Accounts.of_buses {kept added : List MessageBusMeta}
    (hkept : op.KeepsBuses base.messageBuses kept) (hadded : op.AddsBuses base added)
    (hbuses : after.messageBuses = kept ++ added)
    (hcontainers : after.recordContainers = base.recordContainers)
    (hkeeps : op.KeepsContainers base.recordContainers base.recordContainers)
    (hadds : op.AddsContainers base []) : op.Accounts base after where
  containers := ⟨base.recordContainers, [], hkeeps, hadds,
    .of_eq (by rw [hcontainers, List.append_nil])⟩
  buses := ⟨kept, added, hkept, hadded, .of_eq hbuses⟩

/-- Entries that are erased when their files are gone. -/
theorem remaining_eq {α : Type} (rotation : α → UInt32) (clear : α → α)
    (hclear : ∀ a, rotation (clear a) = 0) (gone : Nat → Bool) (entries : List α) :
    (entries.mapIdx fun i a => if gone i then clear a else a).filter (rotation · ≠ 0) =
      remaining rotation gone entries := by
  have hfilter : (entries.zipIdx.filter fun visited =>
        decide (rotation (if gone visited.2 then clear visited.1 else visited.1) ≠ 0)) =
      entries.zipIdx.filter fun visited => !gone visited.2 && rotation visited.1 ≠ 0 := by
    refine List.filter_congr fun visited _ => ?_
    cases hgone : gone visited.2 <;> simp [hclear]
  rw [List.mapIdx_eq_zipIdx_map, List.filter_map, remaining, ← hfilter]
  refine List.map_congr_left fun visited hvisited => ?_
  have hthere := (List.mem_filter.mp hvisited).2
  cases hgone : gone visited.2 with
  | true => simp [hgone, hclear] at hthere
  | false => simp [hgone]

theorem Contents.unlinkMessageBuses_remaining (c : Contents) (gone : Nat → Bool) :
    (c.unlinkMessageBuses gone).messageBuses =
      remaining MessageBusMeta.rotation gone c.messageBuses :=
  remaining_eq MessageBusMeta.rotation (fun mbm => { mbm with rotation := 0 }) (fun _ => rfl) gone
    c.messageBuses

theorem Contents.unlinkRecordContainers_remaining (c : Contents) (gone : Nat → Bool) :
    (c.unlinkRecordContainers gone).recordContainers =
      remaining RecordContainerMeta.rotation gone c.recordContainers :=
  remaining_eq RecordContainerMeta.rotation (fun rcm => { rcm with rotation := 0 }) (fun _ => rfl)
    gone c.recordContainers

/-- Unlinking leaves the entries the same only if it erases none. -/
theorem remaining_perm_iff {α : Type} {rotation : α → UInt32} {gone : Nat → Bool}
    {entries : List α} :
    (remaining rotation gone entries).Perm entries ↔ ¬Erases rotation gone entries := by
  have hkept : ¬Erases rotation gone entries ↔
      ∀ visited ∈ entries.zipIdx, (!gone visited.2 && decide (rotation visited.1 ≠ 0)) = true := by
    simp only [Erases, Prod.forall, List.mk_mem_zipIdx_iff_getElem?, Option.mem_def]
    grind
  rw [hkept]
  constructor
  · intro hperm
    apply List.length_filter_eq_length_iff.mp
    have hlength := hperm.length_eq
    rw [remaining, List.length_map] at hlength
    rwa [List.length_zipIdx]
  · intro hall
    rw [remaining, List.filter_eq_self.mpr hall, List.zipIdx_map_fst]

theorem Contents.unlinkMessageBuses_perm_iff (c : Contents) (gone : Nat → Bool) :
    (c.unlinkMessageBuses gone).messageBuses.Perm c.messageBuses ↔
      ¬Erases MessageBusMeta.rotation gone c.messageBuses := by
  rw [c.unlinkMessageBuses_remaining gone, remaining_perm_iff]

theorem Contents.unlinkRecordContainers_perm_iff (c : Contents) (gone : Nat → Bool) :
    (c.unlinkRecordContainers gone).recordContainers.Perm c.recordContainers ↔
      ¬Erases RecordContainerMeta.rotation gone c.recordContainers := by
  rw [c.unlinkRecordContainers_remaining gone, remaining_perm_iff]

theorem live_subset {c : Contents} (hlive : base.liveBuses = base.messageBuses)
    (hsub : c.messageBuses ⊆ base.messageBuses) : c.liveBuses = c.messageBuses :=
  Contents.liveBuses_eq fun mbm hmbm =>
    Contents.rotation_ne_zero (hlive.symm ▸ hsub hmbm : mbm ∈ base.liveBuses)

theorem mem_of_mem_remaining {α : Type} {rotation : α → UInt32} {gone : Nat → Bool}
    {entries : List α} {a : α} (h : a ∈ remaining rotation gone entries) : a ∈ entries := by
  obtain ⟨v, hv, rfl⟩ := List.mem_map.mp h
  exact List.fst_mem_of_mem_zipIdx (List.mem_filter.mp hv).1

/-- The buses that are left are those that the operation has fetched, unless it adds one. -/
theorem Operation.Accounts.buses_known (h : op.Accounts base after) (hadds : op.addsBuses = false) :
    after.messageBuses ⊆ base.messageBuses := by
  obtain ⟨kept, added, hkept, hadded, hperm⟩ := h.buses
  have hnone : added = [] := by
    cases op with
    | createMessageBus => cases hadds
    | _ => exact hadded
  have hknown : kept ⊆ base.messageBuses := by
    cases op with
    | removeMessageBus => exact hkept ▸ List.filter_subset_self _
    | pruneMessageBuses file =>
      rw [hkept]
      refine List.append_subset.mpr ⟨fun mbm hmbm => ?_, List.drop_subset _ _⟩
      obtain ⟨v, hv, rfl⟩ := List.mem_map.mp hmbm
      have hvisited := List.mem_of_mem_filter hv
      exact List.fst_mem_of_mem_zipIdx ((List.takeWhile_subset _) hvisited)
    | unlinkAllMessageBuses | unlinkAll =>
      intro mbm hmbm
      exact mem_of_mem_remaining (hkept ▸ hmbm)
    | _ => exact hkept ▸ List.Subset.refl _
  rw [hnone, List.append_nil] at hperm
  exact List.Subset.trans hperm.subset hknown

theorem Operation.Unlinks.inPlace (h : op.Unlinks base) : op.inPlace = true := by
  cases op with
  | unlinkAllMessageBuses | unlinkAllRecordContainers | unlinkAll => rfl
  | _ => cases h

/-- Unlinking stores other entries exactly if it erases some. -/
theorem Operation.unlinks_iff (hop : op.inPlace = true)
    (hlive : base.liveBuses = base.messageBuses) :
    (∀ c ∈ (op.plan base).stores, c.SameEntries base) ↔ ¬op.Unlinks base := by
  have hbuses (gone : Nat → Bool) : (base.unlinkMessageBuses gone).liveBuses.Perm base.liveBuses ↔
      ¬Erases MessageBusMeta.rotation gone base.messageBuses := by
    rw [live_subset hlive (base.unlinkMessageBuses_sublist gone).subset, hlive,
      base.unlinkMessageBuses_perm_iff gone]
  cases op with
  | unlinkAllMessageBuses gone =>
    simp only [Operation.plan, rewrite, List.mem_singleton, forall_eq, Contents.SameEntries]
    exact (and_iff_right (.refl _)).trans (hbuses gone)
  | unlinkAllRecordContainers gone =>
    simp only [Operation.plan, rewrite, List.mem_singleton, forall_eq, Contents.SameEntries]
    exact (and_iff_left (.refl _)).trans (base.unlinkRecordContainers_perm_iff gone)
  | unlinkAll containerGone busGone rootUnlinked =>
    have hstores : ((Operation.unlinkAll containerGone busGone rootUnlinked).plan base).stores =
        [(base.unlinkRecordContainers containerGone).unlinkMessageBuses busGone] := by
      simp only [Operation.plan]
      split <;> rfl
    rw [hstores]
    simp only [List.mem_singleton, forall_eq, Contents.SameEntries]
    exact (and_congr (base.unlinkRecordContainers_perm_iff containerGone)
      (hbuses busGone)).trans not_or.symm
  | _ => cases hop

/-! ## The loop over the buses -/

section Loop

variable {file : Nat → BusFile} {candidate : MessageBusMeta} {i : Nat}
  {all : List (MessageBusMeta × Nat)}

theorem prunedBuses_cons : prunedBuses file ((candidate, i) :: all) =
    if endsAt file (candidate, i) then [] else (candidate, i) :: prunedBuses file all := by
  cases hends : endsAt file (candidate, i) <;> simp [prunedBuses, hends]

/-- What the loop has stored last, or what it has begun with. -/
def loopLast (file : Nat → BusFile) (n i : Nat) (contents : Contents) : Contents :=
  (pruneLoop file n i contents).1.getLast?.getD contents

/-- What the loop makes of the buses `rest` that it has not come to yet. -/
structure LoopAccounts (file : Nat → BusFile) (contents : Contents)
    (done rest : List MessageBusMeta)
    (last : Contents) : Prop where
  containers : ∃ added, List.Forall₂ RecoveredInto
      ((prunedBuses file (rest.zipIdx done.length)).filter (isRecovered file)) added ∧
    last.recordContainers = contents.recordContainers ++ added
  buses : last.liveBuses = done.filter (·.rotation ≠ 0) ++
    ((prunedBuses file (rest.zipIdx done.length)).filter (!isErased file ·)).map Prod.fst ++
      rest.drop (prunedBuses file (rest.zipIdx done.length)).length

variable {contents contents' last : Contents} {done rest : List MessageBusMeta}

/-- Nothing more is stored if pruning ends at a bus, or behind the last one. -/
theorem LoopAccounts.ended (hbuses : contents.messageBuses = done ++ rest)
    (hlive : ∀ mbm ∈ rest, mbm.rotation ≠ 0)
    (hended : prunedBuses file (rest.zipIdx done.length) = []) :
    LoopAccounts file contents done rest contents where
  containers := ⟨[], by rw [hended]; exact .nil, (List.append_nil _).symm⟩
  buses := by
    rw [hended, Contents.liveBuses, hbuses, List.filter_append]
    have hrest : rest.filter (·.rotation ≠ 0) = rest := by simpa using hlive
    rw [hrest]
    simp

/-- The loop goes past a bus that it leaves alone. -/
theorem LoopAccounts.pass
    (h : LoopAccounts file contents (done ++ [candidate]) rest last)
    (hlive : candidate.rotation ≠ 0) (hends : endsAt file (candidate, done.length) = false)
    (herased : isErased file (candidate, done.length) = false)
    (hrecovered : isRecovered file (candidate, done.length) = false) :
    LoopAccounts file contents done (candidate :: rest) last := by
  obtain ⟨hcontainers, hbuses⟩ := h
  rw [List.length_append, List.length_singleton] at hcontainers hbuses
  have hvisited : prunedBuses file ((candidate :: rest).zipIdx done.length) =
      (candidate, done.length) :: prunedBuses file (rest.zipIdx (done.length + 1)) := by
    rw [List.zipIdx_cons, prunedBuses_cons, hends, if_neg Bool.false_ne_true]
  constructor
  · rwa [hvisited, List.filter_cons_of_neg (by simp [hrecovered])]
  · rw [hvisited, List.filter_cons_of_pos (by simp [herased]), hbuses]
    simp [hlive]

/-- The loop goes past a bus whose entry it erases. -/
theorem LoopAccounts.erase {added : List RecordContainerMeta} {erased : MessageBusMeta}
    (h : LoopAccounts file contents' (done ++ [erased]) rest last) (hmarked : erased.rotation = 0)
    (hcontainers : contents'.recordContainers = contents.recordContainers ++ added)
    (hends : endsAt file (candidate, done.length) = false)
    (herased : isErased file (candidate, done.length) = true)
    (hadded : List.Forall₂ RecoveredInto
      ([(candidate, done.length)].filter (isRecovered file)) added) :
    LoopAccounts file contents done (candidate :: rest) last := by
  obtain ⟨⟨later, hlater, hlast⟩, hbuses⟩ := h
  rw [List.length_append, List.length_singleton] at hlater hbuses
  have hvisited : prunedBuses file ((candidate :: rest).zipIdx done.length) =
      [(candidate, done.length)] ++ prunedBuses file (rest.zipIdx (done.length + 1)) := by
    rw [List.zipIdx_cons, prunedBuses_cons, hends, if_neg Bool.false_ne_true]
    rfl
  constructor
  · refine ⟨added ++ later, ?_, ?_⟩
    · rw [hvisited, List.filter_append]
      exact List.rel_append hadded hlater
    · rw [hlast, hcontainers, List.append_assoc]
  · rw [hvisited, List.filter_append, List.filter_cons_of_neg (by simp [herased]), hbuses]
    simp [hmarked]

theorem loopLast_cons (erased : Contents) (stores : List Contents) :
    (erased :: stores).getLast?.getD contents = stores.getLast?.getD erased := by
  rw [List.getLast?_cons, Option.getD_some]

theorem eraseBusEntry_buses (hbuses : contents.messageBuses = done ++ candidate :: rest) :
    (contents.eraseBusEntry done.length).messageBuses =
      (done ++ [{ candidate with rotation := 0 }]) ++ rest := by
  simp [Contents.eraseBusEntry, hbuses, List.modify_eq_take_drop]

theorem pruneLoop_accounts (file : Nat → BusFile) (done rest : List MessageBusMeta)
    (contents : Contents) (hbuses : contents.messageBuses = done ++ rest)
    (hlive : ∀ mbm ∈ rest, mbm.rotation ≠ 0) :
    LoopAccounts file contents done rest (loopLast file rest.length done.length contents) := by
  induction rest generalizing done contents with
  | nil => exact .ended hbuses hlive rfl
  | cons candidate rest ih =>
    obtain ⟨hcandidate, hrest⟩ := List.forall_mem_cons.mp hlive
    have hat : contents.messageBuses[done.length]? = some candidate := by simp [hbuses]
    have hended : endsAt file (candidate, done.length) = true →
        LoopAccounts file contents done (candidate :: rest) contents := fun hends =>
      .ended hbuses hlive (by rw [List.zipIdx_cons, prunedBuses_cons, if_pos hends])
    have hpass : LoopAccounts file contents (done ++ [candidate]) rest
        (loopLast file rest.length (done.length + 1) contents) := by
      have := ih (done ++ [candidate]) contents (by simp [hbuses]) hrest
      rwa [List.length_append] at this
    have herase : ∀ c : Contents, c.messageBuses = done ++ candidate :: rest →
        LoopAccounts file (c.eraseBusEntry done.length)
          (done ++ [{ candidate with rotation := 0 }]) rest
          (loopLast file rest.length (done.length + 1) (c.eraseBusEntry done.length)) := by
      intro c hc
      have := ih _ (c.eraseBusEntry done.length) (eraseBusEntry_buses hc) hrest
      rwa [List.length_append] at this
    rw [loopLast, List.length_cons, pruneLoop, hat]
    by_cases hmagic : candidate.magic = mpscMagic
    · cases hfile : file done.length with
      | missing =>
        simp only [hmagic, ne_eq, not_true_eq_false, if_false, loopLast_cons]
        refine (herase contents hbuses).erase rfl (List.append_nil _).symm ?_ ?_ ?_
        all_goals simp [endsAt, isErased, isRecovered, hfile, hmagic]
      | recovered =>
        simp only [hmagic, ne_eq, not_true_eq_false, if_false, loopLast_cons]
        obtain ⟨rcm, hrcm, hadded⟩ :
            ∃ rcm, RecoveredInto (candidate, done.length) rcm ∧
              (contents.addRecoveryContainer candidate).recordContainers =
                contents.recordContainers ++ [rcm] := ⟨_, ⟨_, rfl⟩, rfl⟩
        refine (herase (contents.addRecoveryContainer candidate) hbuses).erase rfl hadded ?_ ?_ ?_
        all_goals simp [endsAt, isErased, isRecovered, hfile, hmagic, hrcm]
      | leftAlone =>
        simp only [hmagic, ne_eq, not_true_eq_false, if_false]
        refine hpass.pass hcandidate ?_ ?_ ?_
        all_goals simp [endsAt, isErased, isRecovered, hfile]
      | timedOut => exact hended (by simp [endsAt, hfile])
      | failed =>
        simp only [hmagic, ne_eq, not_true_eq_false, if_false]
        exact hended (by simp [endsAt, hfile, hmagic])
    · cases hfile : file done.length with
      | timedOut => exact hended (by simp [endsAt, hfile])
      | _ =>
        simp only [hmagic, ne_eq, not_false_eq_true, if_true]
        refine hpass.pass hcandidate ?_ ?_ ?_
        all_goals simp [endsAt, isErased, isRecovered, hfile, hmagic]

end Loop

/-- What an operation leaves when it is done. -/
def Operation.result (op : Operation) (base : Contents) : Contents :=
  op.leaves ((op.plan base).stores.getLast?.getD base)

theorem keepsContainers_prune (page : Pages) (maxFiles : UInt32) (globalSize : UInt64)
    (file : Nat → ContainerFile) (containers : List RecordContainerMeta) :
    (Operation.pruneRecordContainers page maxFiles globalSize file).KeepsContainers containers
      (visitContainers page maxFiles globalSize file containers).kept := by
  obtain ⟨k, hkept⟩ := visitContainers_kept page maxFiles globalSize file containers.zipIdx
  refine ⟨k, ⟨?_, ?_⟩, hkept.kept⟩
  · exact (Nat.eq_or_lt_of_le hkept.le).imp_right hkept.stops
  · rintro j (rfl | hstops)
    · exact hkept.le
    · exact Nat.le_of_not_lt fun hlt => hkept.goes j hlt hstops

/-- Operations keep and add entries as they should. -/
theorem plan_accounts (op : Operation) (hlive : base.liveBuses = base.messageBuses) :
    op.Accounts base (op.result base) := by
  rw [Operation.result]
  cases op with
  | fetchContent => exact .of_containers rfl rfl (List.append_nil _).symm rfl rfl rfl
  | createRecordContainer filename sinkId opens =>
    simp only [Operation.plan, createRecordContainer]
    split
    case h_1 hnone =>
      have hstores :
          ((Operation.createRecordContainer filename sinkId opens).plan base).stores = [] := by
        simp [Operation.plan, createRecordContainer, hnone, Plan.fail]
      exact .of_containers rfl (.inl ⟨hstores, rfl⟩) (List.append_nil _).symm rfl rfl rfl
    case h_2 => exact .of_containers rfl (.inr ⟨_, rfl⟩) rfl rfl rfl rfl
  | updateRecordContainerSize which rotation newSize =>
    simp only [Operation.plan, updateRecordContainerSize]
    split
    case h_1 hnone =>
      have hnone : ∀ rcm ∈ base.recordContainers,
          ¬(rcm.sinkId = which ∧ rcm.rotation = rotation) := by
        simpa using List.findIdx?_eq_none_iff.mp hnone
      exact .of_containers (.inl ⟨hnone, rfl⟩) rfl (List.append_nil _).symm rfl rfl rfl
    case h_2 i hsome =>
      obtain ⟨hi, hmatch, -⟩ := List.findIdx?_eq_some_iff_getElem.mp hsome
      have hthere := List.getElem?_eq_getElem hi
      refine .of_containers (.inr ⟨i, _, hthere, by simpa using hmatch, rfl⟩) rfl ?_ rfl rfl rfl
      rw [List.append_nil, List.modify_eq_set_getElem?]
      simp [hi, Operation.leaves]
  | pruneRecordContainersIf file =>
    exact .of_containers rfl rfl (List.append_nil _).symm rfl rfl rfl
  | pruneRecordContainers page maxFiles globalSize file =>
    exact .of_containers (keepsContainers_prune page maxFiles globalSize file _) rfl
      (List.append_nil _).symm rfl rfl rfl
  | createMessageBus filename id magic processId opens =>
    simp only [Operation.plan, createMessageBus]
    split
    case h_1 hnone =>
      have hstores : ((Operation.createMessageBus filename id magic processId opens).plan
          base).stores = [] := by
        simp [Operation.plan, createMessageBus, hnone, Plan.fail]
      exact .of_buses rfl (.inl ⟨hstores, rfl⟩) (List.append_nil _).symm rfl rfl rfl
    case h_2 => exact .of_buses rfl (.inr ⟨_, rfl⟩) rfl rfl rfl rfl
  | removeMessageBus id rotation =>
    simp only [Operation.plan, removeMessageBus]
    split
    case isTrue => exact .of_buses rfl rfl (by simp [Operation.leaves]) rfl rfl rfl
    case isFalse hnone =>
      have hother : ∀ mbm ∈ base.messageBuses, ¬(mbm.id = id ∧ mbm.rotation = rotation) := by
        simpa using hnone
      refine .of_buses rfl rfl ?_ rfl rfl rfl
      have hall := List.filter_eq_self.mpr fun mbm hmbm => decide_eq_true (hother mbm hmbm)
      exact hall.symm.trans (List.append_nil _).symm
  | pruneMessageBuses file =>
    have hrotation : ∀ mbm ∈ base.messageBuses, mbm.rotation ≠ 0 := fun mbm hmbm =>
      Contents.rotation_ne_zero (hlive.symm ▸ hmbm : mbm ∈ base.liveBuses)
    obtain ⟨⟨added, hadded, hcontainers⟩, hbuses⟩ :=
      pruneLoop_accounts file [] base.messageBuses base rfl hrotation
    exact ⟨⟨_, added, rfl, hadded, .of_eq hcontainers⟩, ⟨_, [], rfl, rfl, .of_eq (by
      rw [List.append_nil]
      exact hbuses)⟩⟩
  | unlinkAllMessageBuses gone =>
    refine .of_buses rfl rfl ?_ rfl rfl rfl
    exact (base.unlinkMessageBuses_remaining gone).trans (List.append_nil _).symm
  | unlinkAllRecordContainers gone =>
    refine .of_containers rfl rfl ?_ rfl rfl rfl
    exact (base.unlinkRecordContainers_remaining gone).trans (List.append_nil _).symm
  | unlinkAll containerGone busGone rootUnlinked =>
    have hcontainers := base.unlinkRecordContainers_remaining containerGone
    have hbuses := (base.unlinkRecordContainers containerGone).unlinkMessageBuses_remaining busGone
    have haccounts : (Operation.unlinkAll containerGone busGone rootUnlinked).Accounts base
        ((base.unlinkRecordContainers containerGone).unlinkMessageBuses busGone) := by
      refine ⟨⟨_, [], rfl, rfl, .of_eq ?_⟩, ⟨_, [], rfl, rfl, .of_eq ?_⟩⟩
      · exact hcontainers.trans (List.append_nil _).symm
      · exact hbuses.trans (List.append_nil _).symm
    simp only [Operation.plan]
    split
    · exact haccounts
    · exact haccounts

end

end Deeplog.Database

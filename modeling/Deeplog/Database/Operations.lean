import Deeplog.Database.Contents
import Deeplog.Lib.Rounding

/-!
# The operations of a handle

What each operation of a `file_database_handle` makes of the contents that it has fetched: the
contents that it stores one after the other, and the contents that its handle caches in the end.
What the operations find in the file system is part of their input.
-/

namespace Deeplog.Database

/-- What an operation stores, and what its handle caches in the end. A handle that has unlinked
the root file is empty. -/
structure Plan where
  stores : List Contents
  cache : Option Contents

/-- An operation that fails before it stores anything. -/
def Plan.fail (cached : Contents) : Plan := ⟨[], some cached⟩

inductive OpenOutcome where
  | opened | fileExists | failed

/-- The open retry loop: the rotation of the file that could be created. -/
def openRetry (lastRotation : UInt32) : (rotation : UInt32) → List OpenOutcome → Option UInt32
  | rotation, .opened :: _ => some rotation
  | rotation, .fileExists :: rest =>
    if rotation - 10 < lastRotation then openRetry lastRotation (rotation + 2) rest else none
  | _, _ => none

/-- `std::ranges::max` with a projection: the first of the greatest elements. -/
def rangesMax {α : Type} (proj : α → UInt32) : List α → Option α
  | [] => none
  | x :: xs => some (xs.foldl (fun best y => if proj best < proj y then y else best) x)

/-- The rotation of the container with the greatest rotation of the sink. -/
def lastContainerRotation (sinkId : FileSinkId) (containers : List RecordContainerMeta) : UInt32 :=
  ((rangesMax (fun rcm => if rcm.sinkId = sinkId then rcm.rotation else 0) containers).map
    (·.rotation)).getD 0

def lastBusRotation (id : Bytes) (buses : List MessageBusMeta) : UInt32 :=
  ((rangesMax (fun mbm => if mbm.id = id then mbm.rotation else 0) buses).map (·.rotation)).getD 0

def nextRotation (containers : List RecordContainerMeta) (sinkId : FileSinkId) : UInt32 :=
  1 + lastContainerRotation sinkId containers

def createRecordContainer (filename : UInt32 → Bytes) (sinkId : FileSinkId)
    (opens : List OpenOutcome) (cached : Contents) : Plan :=
  let added : RecordContainerMeta := ⟨[], 0, sinkId, 0⟩
  let lastRotation := lastContainerRotation sinkId (cached.recordContainers ++ [added])
  match openRetry lastRotation (lastRotation + 1) opens with
  | none => .fail cached
  | some rotation =>
    let contents : Contents :=
      { cached with
        revision := cached.revision + 1
        recordContainers := cached.recordContainers ++
          [{ added with path := filename rotation, rotation := rotation }] }
    ⟨[contents], some contents⟩

def updateRecordContainerSize (which : FileSinkId) (rotation newSize : UInt32)
    (cached : Contents) : Plan :=
  match cached.recordContainers.findIdx? fun rcm =>
      rcm.sinkId = which ∧ rcm.rotation = rotation with
  | none => .fail cached
  | some i =>
    ⟨[{ cached with
        revision := cached.revision + 1
        recordContainers :=
          cached.recordContainers.modify i fun rcm => { rcm with byteSize := newSize } }],
      some cached⟩

/-- `transform`: the handle is not brought up to date. -/
def transform (transformFn : List RecordContainerMeta → List RecordContainerMeta)
    (cached : Contents) : Plan :=
  ⟨[{ cached with
      revision := cached.revision + 1
      recordContainers := transformFn cached.recordContainers }], some cached⟩

/-- The file of a record container, as pruning finds it. The predicate is asked about files that
can be locked; it may also have released the file. -/
inductive ContainerFile where
  | missing
  | unavailable
  | available (maximumExtent : Option UInt64) (prune : Bool)

def sanitizeContainerByteSize (maximumExtent : Option UInt64) (rcm : RecordContainerMeta) :
    RecordContainerMeta :=
  if rcm.byteSize = 0 then
    let size := match maximumExtent with
      | some extent => (min 0xffffffff extent).toUInt32
      | none => rcm.byteSize
    { rcm with byteSize := max size 1 }
  else rcm

def pruneRecordContainersIf (file : Nat → ContainerFile) : Contents → Plan :=
  transform fun containers => containers.zipIdx.filterMap fun (rcm, i) =>
    match file i with
    | .missing => none
    | .unavailable => some rcm
    | .available extent prune =>
      if prune then none else some (sanitizeContainerByteSize extent rcm)

/-- The totals of the containers that are kept, and what becomes of the containers. -/
structure LimitState where
  numFiles : UInt32 := 0
  accumulatedSize : UInt64 := 0
  kept : List RecordContainerMeta := []
  unlinked : List RecordContainerMeta := []

/-- `llfio::utils::page_size`, and `cncr::round_up_p2`. -/
structure Pages where
  exponent : Nat
  roundUpP2 : Rounding.RoundUpP2

def Pages.size (pages : Pages) : Nat := 2 ^ pages.exponent

/-- `round_up_p2` to whole pages. -/
def Pages.roundUp (pages : Pages) (byteSize : UInt32) : Nat :=
  pages.roundUpP2.round byteSize pages.size

/-- One iteration, from the last container to the first. Containers that are removed lose their
path, and containers without path are erased. -/
def LimitState.visit (page : Pages) (maxFiles : UInt32) (globalSize : UInt64)
    (file : Nat → ContainerFile) (visited : RecordContainerMeta × Nat) (state : LimitState) :
    LimitState :=
  let keep (rcm : RecordContainerMeta) := if rcm.path = [] then state.kept else rcm :: state.kept
  match file visited.2 with
  | .missing => state
  | .unavailable => { state with kept := keep visited.1 }
  | .available extent _ =>
    if maxFiles < state.numFiles ∨ globalSize ≤ state.accumulatedSize then
      { state with unlinked := visited.1 :: state.unlinked }
    else
      let rcm := sanitizeContainerByteSize extent visited.1
      { state with
        numFiles := state.numFiles + 1
        accumulatedSize := state.accumulatedSize + .ofNat (page.roundUp rcm.byteSize)
        kept := keep rcm }

/-- The loop of `prune_record_containers(file_database_limits)`. -/
def visitContainers (page : Pages) (maxFilesToKeep : UInt32) (globalSizeLimit : UInt64)
    (file : Nat → ContainerFile) (containers : List RecordContainerMeta) : LimitState :=
  containers.zipIdx.foldr (LimitState.visit page maxFilesToKeep globalSizeLimit file) {}

def pruneRecordContainers (page : Pages) (maxFilesToKeep : UInt32) (globalSizeLimit : UInt64)
    (file : Nat → ContainerFile) : Contents → Plan :=
  transform fun containers =>
    (visitContainers page maxFilesToKeep globalSizeLimit file containers).kept

def createMessageBus (filename : UInt32 → Bytes) (id magic : Bytes) (processId : UInt32)
    (opens : List OpenOutcome) (cached : Contents) : Plan :=
  let added : MessageBusMeta := ⟨[], magic, id, 0, processId⟩
  let lastRotation := lastBusRotation id (cached.messageBuses ++ [added])
  match openRetry lastRotation (lastRotation + 1) opens with
  | none => .fail cached
  | some rotation =>
    let contents : Contents :=
      { cached with
        revision := cached.revision + 1
        messageBuses := cached.messageBuses ++
          [{ added with path := filename rotation, rotation := rotation }] }
    ⟨[contents], some contents⟩

def removeMessageBus (id : Bytes) (rotation : UInt32) (cached : Contents) : Plan :=
  let isMeant (mbm : MessageBusMeta) : Bool := mbm.id = id ∧ mbm.rotation = rotation
  if cached.messageBuses.any isMeant then
    let contents : Contents :=
      { cached with
        revision := cached.revision + 1
        messageBuses := cached.messageBuses.filter fun mbm => !isMeant mbm }
    ⟨[contents], some contents⟩
  else .fail cached

/-- `mpsc_bus_handle::magic` -/
def mpscMagic : Bytes :=
  [0x82, 0x50, 0x0d, 0x0a, 0xab, 0x7e, 0x7b, 0x64, 0x6d,
    0x70, 0x73, 0x63, 0x62, 0x7d, 0x7e, 0xbb, 0x0a, 0x1a]

/-- What pruning makes of the file of a bus. A bus that is in use or cannot be recovered is left
alone; the deadline may have passed before a bus is looked at, and an error of the recovered file
ends the operation. -/
inductive BusFile where
  | missing
  | leftAlone
  | recovered
  | timedOut
  | failed

def Contents.eraseBusEntry (c : Contents) (i : Nat) : Contents where
  revision := c.revision + 1
  recordContainers := c.recordContainers
  messageBuses := c.messageBuses.modify i fun mbm => { mbm with rotation := 0 }

/-- The container with the messages of a bus. -/
def Contents.addRecoveryContainer (c : Contents) (candidate : MessageBusMeta) : Contents :=
  let added : RecordContainerMeta := ⟨[], 0, .recovered, 0⟩
  let rotation := nextRotation (c.recordContainers ++ [added]) .recovered
  let suffix := s!".{FileSinkId.recovered}.{rotation}.dlog"
  { c with
    recordContainers := c.recordContainers ++
      [{ added with path := candidate.path ++ suffix.toUTF8.toList, rotation := rotation }] }

/-- The loop of `prune_message_buses` over the last `n` buses: what it stores, and the contents in
the end, if it gets there. -/
def pruneLoop (file : Nat → BusFile) : (n i : Nat) → Contents → List Contents × Option Contents
  | 0, _, contents => ([], some contents)
  | n + 1, i, contents =>
    match contents.messageBuses[i]?, file i with
    | none, _ => ([], some contents)
    | some _, .timedOut => ([], none)
    | some candidate, outcome =>
      let erase (contents : Contents) :=
        let erased := contents.eraseBusEntry i
        let rest := pruneLoop file n (i + 1) erased
        (erased :: rest.1, rest.2)
      if candidate.magic ≠ mpscMagic then pruneLoop file n (i + 1) contents
      else match outcome with
        | .missing => erase contents
        | .recovered => erase (contents.addRecoveryContainer candidate)
        | .failed => ([], none)
        | _ => pruneLoop file n (i + 1) contents

def pruneMessageBuses (file : Nat → BusFile) (cached : Contents) : Plan :=
  let pruned := pruneLoop file cached.messageBuses.length 0 cached
  ⟨pruned.1, some <| match pruned.2 with
    | some contents => { contents with messageBuses := contents.liveBuses }
    | none => cached⟩

/-- `unlink_all_message_buses_impl`, where `gone` says whose file is missing in the end. -/
def Contents.unlinkMessageBuses (c : Contents) (gone : Nat → Bool) : Contents where
  revision := c.revision
  recordContainers := c.recordContainers
  messageBuses := (c.messageBuses.mapIdx fun i mbm =>
    if gone i then { mbm with rotation := 0 } else mbm).filter (·.rotation ≠ 0)

/-- `unlink_all_record_containers_impl` -/
def Contents.unlinkRecordContainers (c : Contents) (gone : Nat → Bool) : Contents where
  revision := c.revision
  recordContainers := (c.recordContainers.mapIdx fun i rcm =>
    if gone i then { rcm with rotation := 0 } else rcm).filter (·.rotation ≠ 0)
  messageBuses := c.messageBuses

/-- The contents of the handle are changed, and stored under their revision. -/
def rewrite (contents : Contents) : Plan := ⟨[contents], some contents⟩

/-- The public operations of a handle, with what they find in the file system. -/
inductive Operation where
  | fetchContent
  | createRecordContainer (filename : UInt32 → Bytes) (sinkId : FileSinkId)
      (opens : List OpenOutcome)
  | updateRecordContainerSize (which : FileSinkId) (rotation newSize : UInt32)
  | pruneRecordContainersIf (file : Nat → ContainerFile)
  | pruneRecordContainers (page : Pages) (maxFilesToKeep : UInt32) (globalSizeLimit : UInt64)
      (file : Nat → ContainerFile)
  | createMessageBus (filename : UInt32 → Bytes) (id magic : Bytes) (processId : UInt32)
      (opens : List OpenOutcome)
  | removeMessageBus (id : Bytes) (rotation : UInt32)
  | pruneMessageBuses (file : Nat → BusFile)
  | unlinkAllMessageBuses (gone : Nat → Bool)
  | unlinkAllRecordContainers (gone : Nat → Bool)
  | unlinkAll (containerGone busGone : Nat → Bool) (rootUnlinked : Bool)

/-- What an operation does with the contents that it has fetched. -/
def Operation.plan : Operation → Contents → Plan
  | fetchContent, cached => .fail cached
  | createRecordContainer filename sinkId opens, cached =>
    Database.createRecordContainer filename sinkId opens cached
  | updateRecordContainerSize which rotation newSize, cached =>
    Database.updateRecordContainerSize which rotation newSize cached
  | pruneRecordContainersIf file, cached => Database.pruneRecordContainersIf file cached
  | pruneRecordContainers page maxFiles globalSize file, cached =>
    Database.pruneRecordContainers page maxFiles globalSize file cached
  | createMessageBus filename id magic processId opens, cached =>
    Database.createMessageBus filename id magic processId opens cached
  | removeMessageBus id rotation, cached => Database.removeMessageBus id rotation cached
  | pruneMessageBuses file, cached => Database.pruneMessageBuses file cached
  | unlinkAllMessageBuses gone, cached => rewrite (cached.unlinkMessageBuses gone)
  | unlinkAllRecordContainers gone, cached => rewrite (cached.unlinkRecordContainers gone)
  | unlinkAll containerGone busGone rootUnlinked, cached =>
    let contents := (cached.unlinkRecordContainers containerGone).unlinkMessageBuses busGone
    if contents.recordContainers = [] ∧ contents.messageBuses = [] ∧ rootUnlinked then
      ⟨[contents], none⟩
    else rewrite contents

/-- Operations that store contents under the revision that they have fetched. -/
def Operation.inPlace : Operation → Bool
  | unlinkAllMessageBuses _ | unlinkAllRecordContainers _ | unlinkAll .. => true
  | _ => false

/-- What an operation leaves to the next one: the contents that it has stored last. Buses that
pruning has marked as erased are not left. -/
def Operation.leaves : Operation → Contents → Contents
  | pruneMessageBuses _, stored => { stored with messageBuses := stored.liveBuses }
  | _, stored => stored

/-! ## Revisions -/

/-- Contents that increase the revision by one each. -/
def Successive : Contents → List Contents → Prop
  | _, [] => True
  | base, c :: rest => c.revision = base.revision + 1 ∧ Successive c rest

variable {base c : Contents} {op : Operation}

theorem Successive.version_last {stores : List Contents} (h : Successive base stores)
    (hroom : base.version + stores.length < 2 ^ 64) :
    ∀ last ∈ stores.getLast?, last.version = base.version + stores.length := by
  induction stores generalizing base with
  | nil => nofun
  | cons c rest ih =>
    rw [List.length_cons] at hroom ⊢
    have hc : c.version = base.version + 1 := Contents.version_next (by omega) h.1
    intro last hlast
    cases rest with
    | nil => cases hlast; exact hc
    | cons d rest =>
      rw [List.getLast?_cons_cons] at hlast
      have := ih h.2 (by omega) last hlast
      omega

theorem Successive.append {done rest : List Contents} (h : Successive base (done ++ c :: rest)) :
    Successive base done ∧ c.revision = (done.getLast?.getD base).revision + 1 := by
  induction done generalizing base with
  | nil => exact ⟨trivial, h.1⟩
  | cons d done ih =>
    rw [List.getLast?_cons, Option.getD_some]
    exact ⟨⟨h.1, (ih h.2).1⟩, (ih h.2).2⟩

theorem pruneLoop_spec (busFile : Nat → BusFile) (n i : Nat) (contents : Contents) :
    Successive contents (pruneLoop busFile n i contents).1 ∧
      ∀ c ∈ (pruneLoop busFile n i contents).2,
        c = ((pruneLoop busFile n i contents).1.getLast?).getD contents := by
  induction n generalizing i contents with
  | zero => simp [pruneLoop, Successive]
  | succ n ih =>
    have herase : ∀ erased : Contents, erased.revision = contents.revision + 1 →
        Successive contents (erased :: (pruneLoop busFile n (i + 1) erased).1) ∧
        ∀ c ∈ (pruneLoop busFile n (i + 1) erased).2,
          c = ((erased :: (pruneLoop busFile n (i + 1) erased).1).getLast?).getD contents := by
      intro erased hrev
      refine ⟨⟨hrev, (ih (i + 1) erased).1⟩, fun c hc => ?_⟩
      rw [List.getLast?_cons, Option.getD_some]
      exact (ih (i + 1) erased).2 c hc
    rw [pruneLoop]
    split
    · simp [Successive]
    · simp [Successive]
    · dsimp only
      split_ifs
      · exact ih (i + 1) contents
      · split
        · exact herase _ rfl
        · exact herase _ rfl
        · simp [Successive]
        · exact ih (i + 1) contents

/-- An operation that does not work in place increases the revision with each store. -/
theorem plan_successive (base : Contents) (h : op.inPlace = false) :
    Successive base (op.plan base).stores := by
  cases op with
  | unlinkAllMessageBuses | unlinkAllRecordContainers | unlinkAll => cases h
  | fetchContent => trivial
  | createRecordContainer | updateRecordContainerSize | createMessageBus =>
    simp only [Operation.plan, createRecordContainer, updateRecordContainerSize, createMessageBus]
    split
    · trivial
    · exact ⟨rfl, trivial⟩
  | removeMessageBus =>
    simp only [Operation.plan, removeMessageBus]
    split
    · exact ⟨rfl, trivial⟩
    · trivial
  | pruneRecordContainersIf | pruneRecordContainers => exact ⟨rfl, trivial⟩
  | pruneMessageBuses busFile => exact (pruneLoop_spec ..).1

/-- The handle then caches what has been stored last, or still what it has fetched. -/
theorem plan_cache (base : Contents) (h : op.inPlace = false)
    (hlive : base.liveBuses = base.messageBuses) :
    ∃ m, (op.plan base).cache = some m ∧
      (m = base ∨ ∃ last ∈ (op.plan base).stores.getLast?, m.Same last) := by
  cases op with
  | unlinkAllMessageBuses | unlinkAllRecordContainers | unlinkAll => cases h
  | fetchContent => exact ⟨base, rfl, .inl rfl⟩
  | createRecordContainer | updateRecordContainerSize | createMessageBus =>
    simp only [Operation.plan, createRecordContainer, updateRecordContainerSize, createMessageBus]
    split
    · exact ⟨base, rfl, .inl rfl⟩
    · simp [Contents.Same.rfl]
  | removeMessageBus =>
    simp only [Operation.plan, removeMessageBus]
    split
    · simp [Contents.Same.rfl]
    · exact ⟨base, rfl, .inl rfl⟩
  | pruneRecordContainersIf | pruneRecordContainers => exact ⟨base, rfl, .inl rfl⟩
  | pruneMessageBuses busFile =>
    have hlast := (pruneLoop_spec busFile base.messageBuses.length 0 base).2
    simp only [Operation.plan, pruneMessageBuses]
    split
    case h_2 => exact ⟨base, rfl, .inl rfl⟩
    case h_1 contents hcontents =>
      refine ⟨_, rfl, ?_⟩
      have heq := hlast contents hcontents
      cases hstores : (pruneLoop busFile base.messageBuses.length 0 base).1.getLast? with
      | none =>
        rw [hstores, Option.getD_none] at heq
        left
        rw [heq, hlive]
      | some last =>
        rw [hstores, Option.getD_some] at heq
        exact .inr ⟨last, rfl,
          by simp [Contents.Same, Contents.SameEntries, Contents.liveBuses, heq]⟩

/-- An operation in place stores once, under the fetched revision. -/
theorem plan_inPlace (base : Contents) (h : op.inPlace) :
    ∃ c, (op.plan base).stores = [c] ∧ c.revision = base.revision ∧ (base = {} → c = {}) ∧
      ∀ m ∈ (op.plan base).cache, m = c := by
  cases op with
  | unlinkAllMessageBuses gone =>
    exact ⟨_, rfl, rfl, by rintro rfl; rfl, by simp [Operation.plan, rewrite]⟩
  | unlinkAllRecordContainers gone =>
    exact ⟨_, rfl, rfl, by rintro rfl; rfl, by simp [Operation.plan, rewrite]⟩
  | unlinkAll containerGone busGone rootUnlinked =>
    simp only [Operation.plan]
    split
    · exact ⟨_, rfl, rfl, by rintro rfl; rfl, by simp⟩
    · exact ⟨_, rfl, rfl, by rintro rfl; rfl, by simp [rewrite]⟩
  | _ => cases h

/-! ## Entries -/

/-- The file of a container, and the entry up to its size. -/
def RecordContainerMeta.file (rcm : RecordContainerMeta) : Bytes × FileSinkId × UInt32 :=
  (rcm.path, rcm.sinkId, rcm.rotation)

def Operation.addsBuses : Operation → Bool
  | createMessageBus .. => true
  | _ => false

theorem file_sanitize (extent : Option UInt64) (rcm : RecordContainerMeta) :
    (sanitizeContainerByteSize extent rcm).file = rcm.file := by
  simp only [sanitizeContainerByteSize]
  split <;> rfl

theorem pruneLoop_entries (busFile : Nat → BusFile) (n i : Nat) (contents : Contents) :
    ∀ stored ∈ (pruneLoop busFile n i contents).1,
      contents.recordContainers ⊆ stored.recordContainers ∧
        stored.liveBuses ⊆ contents.liveBuses := by
  induction n generalizing i contents with
  | zero => simp [pruneLoop]
  | succ n ih =>
    have herase : ∀ c : Contents, contents.recordContainers ⊆ c.recordContainers →
        c.messageBuses = contents.messageBuses →
        ∀ stored ∈ c.eraseBusEntry i :: (pruneLoop busFile n (i + 1) (c.eraseBusEntry i)).1,
          contents.recordContainers ⊆ stored.recordContainers ∧
            stored.liveBuses ⊆ contents.liveBuses := by
      intro c hcontainers hbuses
      have hlive : (c.eraseBusEntry i).liveBuses ⊆ contents.liveBuses := by
        intro mbm hmbm
        obtain ⟨hmem, hrotation⟩ := List.mem_filter.mp hmbm
        obtain ⟨j, hj⟩ := List.mem_iff_getElem?.mp hmem
        rw [Contents.eraseBusEntry, List.getElem?_modify, hbuses] at hj
        refine List.mem_filter.mpr ⟨List.mem_iff_getElem?.mpr ⟨j, ?_⟩, hrotation⟩
        grind
      intro stored hstored
      rcases List.mem_cons.mp hstored with rfl | hstored
      · exact ⟨hcontainers, hlive⟩
      · have hrest := ih (i + 1) _ stored hstored
        exact ⟨List.Subset.trans hcontainers hrest.1, List.Subset.trans hrest.2 hlive⟩
    rw [pruneLoop]
    split
    · simp
    · simp
    · dsimp only
      split_ifs
      · exact ih (i + 1) contents
      · split
        · exact herase contents (List.Subset.refl _) rfl
        · exact herase _ (List.subset_append_left _ _) rfl
        · simp
        · exact ih (i + 1) contents

/-- Unlinking removes entries, and changes none of the others. -/
theorem unlinked_sublist {α : Type} (rotation : α → UInt32) (clear : α → α)
    (hclear : ∀ a, rotation (clear a) = 0) (gone : Nat → Bool) (entries : List α) :
    ((entries.mapIdx fun i a => if gone i then clear a else a).filter
      (rotation · ≠ 0)).Sublist entries := by
  induction entries generalizing gone with
  | nil => exact .slnil
  | cons a as ih =>
    have hrest := ih fun i => gone (i + 1)
    rw [List.mapIdx_cons]
    cases gone 0 with
    | true =>
      rw [if_pos rfl, List.filter_cons_of_neg (by simp [hclear])]
      exact hrest.cons a
    | false =>
      rw [if_neg Bool.false_ne_true, List.filter_cons]
      split
      · exact hrest.cons_cons a
      · exact hrest.cons a

theorem Contents.unlinkMessageBuses_sublist (c : Contents) (gone : Nat → Bool) :
    (c.unlinkMessageBuses gone).messageBuses.Sublist c.messageBuses :=
  unlinked_sublist MessageBusMeta.rotation (fun mbm => { mbm with rotation := 0 }) (fun _ => rfl)
    gone c.messageBuses

theorem Contents.unlinkRecordContainers_sublist (c : Contents) (gone : Nat → Bool) :
    (c.unlinkRecordContainers gone).recordContainers.Sublist c.recordContainers :=
  unlinked_sublist RecordContainerMeta.rotation (fun rcm => { rcm with rotation := 0 })
    (fun _ => rfl) gone c.recordContainers

theorem map_file_modify (i : Nat) (newSize : UInt32) (containers : List RecordContainerMeta) :
    (containers.modify i fun rcm => { rcm with byteSize := newSize }).map (·.file) =
      containers.map (·.file) := by
  refine List.ext_getElem? fun j => ?_
  simp only [List.getElem?_map, List.getElem?_modify]
  cases containers[j]? with
  | none => rfl
  | some rcm => by_cases h : i = j <;> simp [h, RecordContainerMeta.file]

end Deeplog.Database

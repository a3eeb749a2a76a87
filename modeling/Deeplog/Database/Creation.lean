import Deeplog.Database.Crash
import Deeplog.Mpsc.Create

/-!
# Creation

`create_record_container` and `create_message_bus` create a file and register it, and
`db_mpsc_bus` initialises the file of a bus that has been registered. Every step of it may fail,
and only some of the failures are cleaned up after: a file that cannot be locked stays in the
directory, a bus that cannot be initialised stays in the database, and what a failed store has
written stays in its stream.
-/

namespace Deeplog.Database

/-! ## Failures -/

/-- A store that fails: blocks that have been written, the destructor's attempt included, and what
is left in the area of the next one. -/
structure StoreFault where
  blocks : Nat
  left : Bytes
  left_le : left.length ≤ indexToBlockSize blocks

/-- What the steps of a creation find. -/
structure Environment where
  lockRoot : Bool
  /-- Opening the stream `odd` to fetch the contents. -/
  openStream : (odd : Bool) → Bool
  /-- Files that cannot be created, for another reason than that they exist. -/
  refuses : Bytes → Bool
  /-- The passes of the open retry loop. -/
  passes : Nat
  lockFile : Bool
  storing : Option StoreFault
  unlink : Bool

/-- The further steps of `db_mpsc_bus`. -/
structure BusEnvironment extends Environment where
  /-- `clone` and the copies of the id. -/
  clone : Bool
  truncate : Bool

/-- The root file, what the handle caches, and the names in its directory. -/
structure State where
  file : File
  cached : Contents
  directory : Bytes → Bool

/-! ## The operations -/

namespace ContentsCodec

variable (codec : ContentsCodec)

/-- `fetch_content_impl` with streams that may not be opened. If it fails, the handle caches what
it has adopted so far. -/
def tryFetch (env : Environment) (f : File) (cached : Contents) : Except Contents Contents :=
  match if env.openStream false then codec.decodeStream f false else none with
  | none => .error cached
  | some even =>
    match if env.openStream true then codec.decodeStream f true else none with
    | none => .error ((Fetched.mk cached cached.odd).adopt false even).contents
    | some odd =>
      match fetchDecoded even odd cached with
      | none => .error cached
      | some base => .ok base

/-- The blocks of a stream of the greatest size. -/
def maxBlocks : Nat := 5 + (maxStreamSize / pageSize - 31) / 16

/-- The file behind a store that fails. -/
def broken (f : File) (c : Contents) (fault : StoreFault) : File :=
  let torn := codec.torn f c fault.blocks
  if fault.left = [] ∨ (codec.chunksOf c).length ≤ fault.blocks then torn
  else torn.write (indexToBlockOffset fault.blocks c.odd) fault.left

/-- `retire_to_storage`, and whether it succeeds. Contents that do not fit fail behind the last
block of the stream. -/
def tryRetire (storing : Option StoreFault) (f : File) (c : Contents) : File × Bool :=
  match storing with
  | some fault => (codec.broken f c fault, false)
  | none =>
    match codec.retireToStorage f c with
    | some f' => (f', true)
    | none => (codec.torn f c maxBlocks, false)

end ContentsCodec

/-- What creating a file of the given name comes to. -/
def outcome (env : Environment) (directory : Bytes → Bool) (name : Bytes) : OpenOutcome :=
  if env.refuses name then .failed else if directory name then .fileExists else .opened

def outcomes (env : Environment) (directory : Bytes → Bool) (filename : UInt32 → Bytes) :
    Nat → UInt32 → List OpenOutcome
  | 0, _ => []
  | n + 1, rotation =>
    outcome env directory (filename rotation) ::
      outcomes env directory filename n (rotation + 2)

/-- What `create_record_container` and `create_message_bus` do differently: the names, the last
rotation and the entry. -/
structure Creation where
  filename : UInt32 → Bytes
  lastRotation : Contents → UInt32
  register : UInt32 → Contents → Contents
  revision_register : ∀ rotation c, (register rotation c).revision = c.revision + 1

namespace Creation

def recordContainer (filename : UInt32 → Bytes) (sinkId : FileSinkId) : Creation where
  filename
  lastRotation cached :=
    lastContainerRotation sinkId (cached.recordContainers ++ [⟨[], 0, sinkId, 0⟩])
  register rotation cached :=
    { cached with
      revision := cached.revision + 1
      recordContainers := cached.recordContainers ++ [⟨filename rotation, 0, sinkId, rotation⟩] }
  revision_register _ _ := rfl

def messageBus (filename : UInt32 → Bytes) (id magic : Bytes) (processId : UInt32) : Creation where
  filename
  lastRotation cached :=
    lastBusRotation id (cached.messageBuses ++ [⟨[], magic, id, 0, processId⟩])
  register rotation cached :=
    { cached with
      revision := cached.revision + 1
      messageBuses := cached.messageBuses ++ [⟨filename rotation, magic, id, rotation, processId⟩] }
  revision_register _ _ := rfl

/-- The creation behind `db_mpsc_bus`. -/
abbrev mpscBus (filename : UInt32 → Bytes) (id : Bytes) (processId : UInt32) : Creation :=
  messageBus filename id mpscMagic processId

variable (self : Creation)

/-- The rotation of the file that is created. -/
def openFile (env : Environment) (directory : Bytes → Bool) (base : Contents) : Option UInt32 :=
  let lastRotation := self.lastRotation base
  openRetry lastRotation (lastRotation + 1)
    (outcomes env directory self.filename env.passes (lastRotation + 1))

/-- `unlink` of a file that has been created. -/
def unlink (env : Environment) (directory : Bytes → Bool) (name : Bytes) : Bytes → Bool :=
  if env.unlink then Function.update directory name false else directory

/-- The body of both functions: the rotation, if no step fails, and the state behind it. -/
def create (codec : ContentsCodec) (env : Environment) (s : State) : Option UInt32 × State :=
  if env.lockRoot = false then (none, s)
  else match codec.tryFetch env s.file s.cached with
  | .error cached => (none, { s with cached })
  | .ok base =>
    match self.openFile env s.directory base with
    | none => (none, { s with cached := base })
    | some rotation =>
      let name := self.filename rotation
      let directory := Function.update s.directory name true
      -- the handle of the file is closed without unlinking it
      if env.lockFile = false then (none, { s with cached := base, directory })
      else
        let contents := self.register rotation base
        match codec.tryRetire env.storing s.file contents with
        | (file, false) => (none, ⟨file, base, unlink env directory name⟩)
        | (file, true) => (some rotation, ⟨file, contents, directory⟩)

/-- The plan of the operation, with the outcomes of the open retry loop. -/
def plan (opens : List OpenOutcome) (cached : Contents) : Plan :=
  match openRetry (self.lastRotation cached) (self.lastRotation cached + 1) opens with
  | none => .fail cached
  | some rotation =>
    ⟨[self.register rotation cached], some (self.register rotation cached)⟩

theorem recordContainer_plan (filename : UInt32 → Bytes) (sinkId : FileSinkId)
    (opens : List OpenOutcome) (cached : Contents) :
    (recordContainer filename sinkId).plan opens cached =
      createRecordContainer filename sinkId opens cached := rfl

theorem messageBus_plan (filename : UInt32 → Bytes) (id magic : Bytes) (processId : UInt32)
    (opens : List OpenOutcome) (cached : Contents) :
    (messageBus filename id magic processId).plan opens cached =
      createMessageBus filename id magic processId opens cached := rfl

end Creation

/-- `create_record_container`, with the names that its pattern leads to. -/
def State.createRecordContainer (codec : ContentsCodec) (env : Environment)
    (filename : UInt32 → Bytes) (sinkId : FileSinkId) (s : State) : Option UInt32 × State :=
  (Creation.recordContainer filename sinkId).create codec env s

/-- `create_message_bus` -/
def State.createMessageBus (codec : ContentsCodec) (env : Environment) (filename : UInt32 → Bytes)
    (id magic : Bytes) (processId : UInt32) (s : State) : Option UInt32 × State :=
  (Creation.messageBus filename id magic processId).create codec env s

/-- `mpsc_bus_handle::mpsc_bus` on the new file, which is locked already. -/
def initializeBus (infoCodec : Mpsc.InfoCodec) (epoch : Mpsc.ClockEpoch) (truncate : Bool)
    (numRegions regionSize : UInt32) : Except Mpsc.Failure (Mpsc.Handle × File) :=
  Mpsc.mpscBus infoCodec epoch ⟨true, true, true, truncate, true, .zeros 0⟩ numRegions regionSize
    .exclusive

/-- `db_mpsc_bus_handle::db_mpsc_bus`, which works on a clone of the handle. -/
def State.dbMpscBus (codec : ContentsCodec) (infoCodec : Mpsc.InfoCodec) (epoch : Mpsc.ClockEpoch)
    (env : BusEnvironment) (filename : UInt32 → Bytes) (id : Bytes) (processId : UInt32)
    (numRegions regionSize : UInt32) (s : State) : Option UInt32 × State :=
  if env.clone = false then (none, s)
  else
    let (info, db) := s.createMessageBus codec env.toEnvironment filename id mpscMagic processId
    let s := { db with cached := s.cached }
    match info with
    | none => (none, s)
    | some rotation =>
      match initializeBus infoCodec epoch env.truncate numRegions regionSize with
      | .error _ =>
        -- the entry stays in the database
        (none, { s with
          directory := Creation.unlink env.toEnvironment s.directory (filename rotation) })
      | .ok _ => (some rotation, s)

/-! ## Databases -/

theorem RootFile.Sound.stored_file {codec : ContentsCodec} {db : RootFile} (h : db.Sound codec) :
    codec.Stored db.file db.stored := by
  obtain ⟨_, hrep⟩ := h.represents
  exact hrep.stored

theorem RootFile.Sound.other_stream {codec : ContentsCodec} {db : RootFile} (h : db.Sound codec) :
    ∃ decoded, codec.decodeStream db.file (!db.stored.odd) = some decoded ∧
      ∀ p ∈ decoded, ¬p.Outranks (!db.stored.odd) db.stored := by
  obtain ⟨previous, hrep⟩ := h.represents
  refine ⟨previous, hrep.behind.decodeStream, fun p hp => ?_⟩
  have hlt := hrep.behind.version_lt p hp
  rw [Contents.Outranks]
  split <;> omega

/-- A root file as a handle finds it: the current contents in their stream, nothing in the other
one that a handle would prefer to them, and a cache that is not ahead. -/
structure OpenDatabase (codec : ContentsCodec) where
  file : File
  current : Contents
  cached : Contents
  stored : codec.Stored file current
  other : ∃ decoded, codec.decodeStream file (!current.odd) = some decoded ∧
    ∀ p ∈ decoded, ¬p.Outranks (!current.odd) current
  cached_le : cached.version ≤ current.version

namespace OpenDatabase

variable {codec : ContentsCodec}

/-- Every handle of a root file that has been reached is one of an open database. -/
def ofSound {db : RootFile} (h : db.Sound codec) {handle : Nat} {cached : Contents}
    (hcached : db.cached handle = some cached) : OpenDatabase codec where
  file := db.file
  current := db.stored
  cached
  stored := h.stored_file
  other := h.other_stream
  cached_le := h.ok.cached_le handle cached hcached

variable (db : OpenDatabase codec)

def state (directory : Bytes → Bool) : State := ⟨db.file, db.cached, directory⟩

/-- What a handle has or takes for the contents. -/
def contents (cached : Contents) : Contents :=
  Versioned.refresh Contents.version db.current cached

/-- A handle that fetches the same entries as the handle of the database. -/
structure Agrees (cached : Contents) : Prop where
  version_le : cached.version ≤ db.current.version
  entries : (db.contents cached).SameEntries (db.contents db.cached)

/-- Contents in the other stream that mislead a handle: it takes them for newer ones, and they have
other entries. -/
def Misleading (t : Contents) : Prop :=
  ∃ cached, db.Agrees cached ∧ t.Outranks (!db.current.odd) db.current ∧
    cached.version < t.version ∧ ¬t.SameEntries (db.contents db.cached)

end OpenDatabase

/-- Everything is as before: the directory, and the entries that the handle fetches, or any other
handle that has fetched the same entries before. -/
structure Restored {codec : ContentsCodec} (db : OpenDatabase codec) (directory : Bytes → Bool)
    (after : State) : Prop where
  directory : after.directory = directory
  entries : ∀ cached, cached = after.cached ∨ db.Agrees cached → ∃ before fetched,
    codec.fetchContentImpl db.file db.cached = some before ∧
      codec.fetchContentImpl after.file cached = some fetched ∧ fetched.SameEntries before

/-- If the operation fails, then everything is as before. -/
def AllOrNothing {codec : ContentsCodec} (db : OpenDatabase codec) (directory : Bytes → Bool)
    (operation : State → Option UInt32 × State) : Prop :=
  (operation (db.state directory)).1 = none →
    Restored db directory (operation (db.state directory)).2

/-! ## Fetching behind a failure -/

section

variable {codec : ContentsCodec} {f : File} {current cached t : Contents}
  {mixture : Option Contents}
  {odd : Bool}

/-- What a handle takes from a stream with a mixture and the stream with the current contents. -/
def seen (mixture : Option Contents) (current cached : Contents) : Contents :=
  match mixture with
  | some t =>
    if t.Outranks (!current.odd) current ∧ cached.version < t.version then
      t.settled (!current.odd)
    else Versioned.refresh Contents.version current cached
  | none => Versioned.refresh Contents.version current cached

theorem fetchDecoded_seen (mixture : Option Contents) (hle : cached.version ≤ current.version) :
    fetchDecoded (if current.odd then mixture else some current)
        (if current.odd then some current else mixture) cached =
      some (seen mixture current cached).arrange := by
  have hsettle : Fetched.settle ⟨current, current.odd⟩ = current := Fetched.settle_of_odd rfl
  have hown : Fetched.settle ⟨cached, cached.odd⟩ = cached := Fetched.settle_of_odd rfl
  simp only [seen, Versioned.refresh, Contents.Outranks, Contents.settled]
  cases hodd : current.odd with
  | true =>
    simp only [hodd] at hsettle
    cases mixture with
    | none => grind [fetchDecoded, Fetched.adopt_none, Fetched.adopt_some]
    | some t => grind [fetchDecoded, Fetched.adopt_some]
  | false =>
    simp only [hodd] at hsettle
    cases mixture with
    | none => grind [fetchDecoded, Fetched.adopt_none, Fetched.adopt_some]
    | some t => grind [fetchDecoded, Fetched.adopt_some]

theorem fetchContentImpl_seen (hcurrent : codec.decodeStream f current.odd = some (some current))
    (hmixture : codec.decodeStream f (!current.odd) = some mixture)
    (hle : cached.version ≤ current.version) :
    codec.fetchContentImpl f cached = some (seen mixture current cached).arrange := by
  rw [← fetchDecoded_seen mixture hle]
  cases hodd : current.odd with
  | true =>
    simp only [hodd, Bool.not_true] at hcurrent hmixture
    simp [ContentsCodec.fetchContentImpl, hcurrent, hmixture]
  | false =>
    simp only [hodd, Bool.not_false] at hcurrent hmixture
    simp [ContentsCodec.fetchContentImpl, hcurrent, hmixture]

theorem seen_of_not_outranks (h : ∀ t ∈ mixture, ¬t.Outranks (!current.odd) current)
    (cached : Contents) : seen mixture current cached =
      Versioned.refresh Contents.version current cached := by
  cases mixture with
  | none => rfl
  | some t => exact if_neg fun hseen => h t rfl hseen.1

theorem settled_sameEntries (t : Contents) (odd : Bool) : (t.settled odd).SameEntries t := by
  rw [Contents.settled, Fetched.settle]
  split
  · exact ⟨.refl _, .refl _⟩
  · exact .rfl

end

namespace OpenDatabase

variable {codec : ContentsCodec} {db : OpenDatabase codec} {directory : Bytes → Bool}
  {cached t : Contents} {mixture : Option Contents} {after : State}

theorem fetch (db : OpenDatabase codec) (hle : cached.version ≤ db.current.version) :
    codec.fetchContentImpl db.file cached = some (db.contents cached).arrange := by
  obtain ⟨decoded, hother, hnot⟩ := db.other
  rw [fetchContentImpl_seen db.stored.decodeStream hother hle, seen_of_not_outranks hnot]
  rfl

theorem agrees_self (db : OpenDatabase codec) : db.Agrees db.cached := ⟨db.cached_le, .rfl⟩

/-- What the handle fetches. -/
def base (db : OpenDatabase codec) : Contents := (db.contents db.cached).arrange

theorem version_base (db : OpenDatabase codec) : db.base.version = db.current.version :=
  Versioned.version_refresh db.cached_le

theorem base_sameEntries (db : OpenDatabase codec) :
    db.base.SameEntries (db.contents db.cached) := (Contents.arrange_same _).2

theorem agrees_base (db : OpenDatabase codec) : db.Agrees db.base := by
  have hversion := db.version_base
  refine ⟨hversion.le, ?_⟩
  have hkept : db.contents db.base = db.base := if_neg (by omega)
  rw [hkept]
  exact db.base_sameEntries

/-- A handle that has adopted the contents of the even stream, and no more, still agrees. -/
theorem agrees_adopt (db : OpenDatabase codec) {even : Option Contents}
    (h : codec.decodeStream db.file false = some even) :
    db.Agrees ((Fetched.mk db.cached db.cached.odd).adopt false even).contents := by
  have hagrees := db.agrees_self
  cases even with
  | none => exact hagrees
  | some e =>
    rw [Fetched.adopt_some]
    split
    case isFalse => exact hagrees
    case isTrue hlt =>
      -- it has the current contents, or will still refresh
      have hkept : e.version ≤ db.current.version ∧ db.contents e = db.current := by
        cases hodd : db.current.odd with
        | false =>
          have hstored := db.stored.decodeStream
          rw [hodd, h] at hstored
          cases hstored
          exact ⟨Nat.le_refl _, if_neg (Nat.lt_irrefl _)⟩
        | true =>
          obtain ⟨decoded, hother, hnot⟩ := db.other
          rw [hodd, Bool.not_true, h] at hother
          cases hother
          have houtranks := hnot e rfl
          simp only [hodd, Contents.Outranks, Bool.not_true, Bool.false_eq_true,
            if_false] at houtranks
          exact ⟨by omega, if_pos (by omega)⟩
      have hcontents : db.contents db.cached = db.current := if_pos (by
        have hle := hkept.1
        simp only at hlt
        omega)
      refine ⟨hkept.1, ?_⟩
      rw [hkept.2, hcontents]
      exact .rfl

/-- What the stream with a mixture does to the handles. -/
theorem restored_iff (hdirectory : after.directory = directory) (hcached : db.Agrees after.cached)
    (hcurrent : codec.decodeStream after.file db.current.odd = some (some db.current))
    (hmixture : codec.decodeStream after.file (!db.current.odd) = some mixture) :
    Restored db directory after ↔ ∀ t ∈ mixture, ¬db.Misleading t := by
  have hbefore := db.fetch db.cached_le
  constructor
  · rintro h t ht ⟨cached, hagrees, houtranks, hlt, hother⟩
    obtain ⟨before, fetched, hb, hf, hsame⟩ := h.entries cached (.inr hagrees)
    cases ht
    rw [fetchContentImpl_seen hcurrent hmixture hagrees.version_le, seen,
      if_pos ⟨houtranks, hlt⟩] at hf
    cases hf
    cases hbefore.symm.trans hb
    apply hother
    have hsettled := settled_sameEntries t (!db.current.odd)
    have harranged := (Contents.arrange_same (t.settled (!db.current.odd))).2
    exact (hsettled.symm.trans (harranged.symm.trans hsame)).trans (Contents.arrange_same _).2
  · intro h
    refine ⟨hdirectory, fun cached hhandle => ?_⟩
    have hagrees : db.Agrees cached := by
      obtain rfl | hagrees := hhandle
      · exact hcached
      · exact hagrees
    refine ⟨_, _, hbefore, fetchContentImpl_seen hcurrent hmixture hagrees.version_le, ?_⟩
    have hseen : (seen mixture db.current cached).SameEntries (db.contents db.cached) := by
      cases mixture with
      | none => exact hagrees.entries
      | some t =>
        rw [seen]
        split
        case isFalse => exact hagrees.entries
        case isTrue hseen =>
          have hsame : t.SameEntries (db.contents db.cached) := by
            by_contra hother
            exact h t rfl ⟨cached, hagrees, hseen.1, hseen.2, hother⟩
          exact (settled_sameEntries _ _).trans hsame
    exact ((Contents.arrange_same _).2.trans hseen).trans (Contents.arrange_same _).2.symm

/-- A failure before anything has been written. -/
theorem restored (hcached : db.Agrees cached) :
    Restored db directory ⟨db.file, cached, directory⟩ := by
  obtain ⟨decoded, hother, hnot⟩ := db.other
  have hiff : Restored db directory ⟨db.file, cached, directory⟩ ↔
      ∀ t ∈ decoded, ¬db.Misleading t :=
    restored_iff rfl hcached db.stored.decodeStream hother
  apply hiff.mpr
  rintro t ht ⟨_, _, houtranks, _⟩
  exact hnot t ht houtranks

theorem restored_state (db : OpenDatabase codec) (directory : Bytes → Bool) :
    Restored db directory (db.state directory) := restored db.agrees_self

end OpenDatabase

/-! ## Stores that fail -/

section

variable {codec : ContentsCodec} {f f' : File} {c current : Contents} {fault : StoreFault}
  {decoded : Option Contents} {odd : Bool} {storing : Option StoreFault}

theorem decodeStream_of_size (h : codec.decodeStream f odd = some decoded)
    (hsize : f.size ≤ f'.size) : ∃ mixture, codec.decodeStream f' odd = some mixture := by
  obtain ⟨stream, hstream, -⟩ := Option.map_eq_some_iff.mp h
  obtain ⟨chunk, hchunk, -⟩ := Option.map_eq_some_iff.mp hstream
  have hle := (File.read_eq_some_iff.mp hchunk).1
  have hread : readChunk f' 0 odd = some ((List.range (indexToBlockSize 0)).map fun i =>
      f'.byte (indexToBlockOffset 0 odd + i)) := if_pos (by omega)
  exact ⟨_, by rw [ContentsCodec.decodeStream, interleavingInputStream, hread]; rfl⟩

theorem size_le_broken (codec : ContentsCodec) (f : File) (c : Contents) (fault : StoreFault) :
    f.size ≤ (codec.broken f c fault).size := by
  have htorn : f.size ≤ (codec.torn f c fault.blocks).size := size_le_writeChunks
  rw [ContentsCodec.broken]
  split
  · exact htorn
  · exact htorn.trans (File.size_le_write ..)

/-- A write into a block of the other stream. -/
theorem Holds.write_other {i j : Nat} {other : Bool} {x : Bytes} {ds : List Bytes}
    (h : Holds f other j ds) (hlen : x.length ≤ indexToBlockSize i) (hne : other ≠ odd) :
    Holds (f.write (indexToBlockOffset i odd) x) other j ds := by
  induction ds generalizing j with
  | nil => trivial
  | cons d ds ih =>
    refine ⟨File.read_write_of_disjoint h.1 ?_, ih h.2⟩
    have hdisjoint := blocks_disjoint (i := j) (j := i) (.inr hne)
    omega

theorem ContentsCodec.Stored.broken (h : codec.Stored f current) (hodd : current.odd ≠ c.odd)
    (fault : StoreFault) : codec.Stored (codec.broken f c fault) current := by
  have htorn : codec.Stored (codec.torn f c fault.blocks) current :=
    h.writeChunks (ContentsCodec.full_take codec c _) hodd
  rw [ContentsCodec.broken]
  split
  · exact htorn
  · exact ⟨htorn.fits, htorn.holds.write_other fault.left_le hodd⟩

/-- Whatever becomes of a store, the current contents stay, and the stream can be opened. -/
theorem tryRetire_spec (h : codec.Stored f current) (hodd : current.odd ≠ c.odd)
    (hother : codec.decodeStream f c.odd = some decoded) (storing : Option StoreFault) :
    codec.Stored (codec.tryRetire storing f c).1 current ∧
      (∃ mixture, codec.decodeStream (codec.tryRetire storing f c).1 c.odd = some mixture) ∧
      ((codec.tryRetire storing f c).2 = true ↔ storing = none ∧ codec.Fits c) := by
  cases storing with
  | some fault =>
    refine ⟨h.broken hodd fault, decodeStream_of_size hother (size_le_broken ..), ?_⟩
    simp [ContentsCodec.tryRetire]
  | none =>
    cases hretire : codec.retireToStorage f c with
    | some f' =>
      obtain ⟨hfits, rfl⟩ := ContentsCodec.retireToStorage_eq_some hretire
      simp only [ContentsCodec.tryRetire, hretire, hfits, and_self]
      exact ⟨h.writeChunks (ContentsCodec.full_chunksOf codec c) hodd,
        decodeStream_of_size hother size_le_writeChunks, trivial⟩
    | none =>
      have hfits : ¬codec.Fits c := by
        intro hfits
        rw [ContentsCodec.retireToStorage, if_pos hfits] at hretire
        cases hretire
      simp only [ContentsCodec.tryRetire, hretire, hfits, and_false, Bool.false_eq_true]
      exact ⟨h.writeChunks (ContentsCodec.full_take codec c _) hodd,
        decodeStream_of_size hother size_le_writeChunks, trivial⟩

theorem tryRetire_stored (h : (codec.tryRetire storing f c).2 = true) :
    codec.Stored (codec.tryRetire storing f c).1 c := by
  cases storing with
  | some fault => cases h
  | none =>
    cases hretire : codec.retireToStorage f c with
    | some f' =>
      simp only [ContentsCodec.tryRetire, hretire]
      exact ContentsCodec.retireToStorage_stored hretire
    | none => simp [ContentsCodec.tryRetire, hretire] at h

end

/-! ## What creation leaves behind -/

theorem opened_of_openRetry {env : Environment} {directory : Bytes → Bool}
    {filename : UInt32 → Bytes} {last rotation r : UInt32} {n : Nat}
    (h : openRetry last rotation (outcomes env directory filename n rotation) = some r) :
    directory (filename r) = false := by
  induction n generalizing rotation with
  | zero => cases h
  | succ n ih =>
    rw [outcomes, outcome] at h
    split at h
    · cases h
    · split at h
      · rw [openRetry] at h
        split at h
        · exact ih h
        · cases h
      case isFalse hfree =>
        cases h
        exact Bool.eq_false_of_not_eq_true hfree

namespace Creation

variable (self : Creation) {codec : ContentsCodec} (env : Environment) (db : OpenDatabase codec)
  (directory : Bytes → Bool)

/-- The rotation whose file can be created, if the steps before it do not fail. -/
def creates : Option UInt32 :=
  if env.lockRoot ∧ env.openStream false ∧ env.openStream true then
    self.openFile env directory db.base
  else none

/-- The contents with the new entry can be stored. -/
def Stores (codec : ContentsCodec) (env : Environment) (c : Contents) : Prop :=
  env.storing = none ∧ codec.Fits c

/-- What is left in the stream of the new contents is decoded as. -/
def leftover (c : Contents) : Option Contents :=
  (codec.decodeStream (codec.tryRetire env.storing db.file c).1 c.odd).join

/-- A file that can be created can be locked, and a store that fails misleads nobody. -/
def CleansUp : Prop :=
  ∀ rotation ∈ self.creates env db directory, env.lockFile = true ∧
    (¬Stores codec env (self.register rotation db.base) →
      ∀ t ∈ leftover env db (self.register rotation db.base), ¬db.Misleading t)

variable {self env db directory} {rotation : UInt32}

theorem odd_register (self : Creation) (db : OpenDatabase codec) (rotation : UInt32) :
    (self.register rotation db.base).odd = !db.current.odd := by
  rw [Contents.odd_of_revision (self.revision_register rotation db.base),
    Contents.odd_of_version_eq db.version_base]

theorem version_register (self : Creation) (db : OpenDatabase codec) (rotation : UInt32)
    (hlt : db.current.version + 1 < 2 ^ 64) :
    (self.register rotation db.base).version = db.current.version + 1 := by
  rw [← db.version_base] at hlt ⊢
  exact Contents.version_next hlt (self.revision_register rotation db.base)

/-- The new revision outranks the current one, unless it is zero again. -/
theorem outranks_register_iff (self : Creation) (db : OpenDatabase codec) (rotation : UInt32) :
    (self.register rotation db.base).Outranks (!db.current.odd) db.current ↔
      db.current.version + 1 ≠ 2 ^ 64 := by
  have hbound : db.current.version < 2 ^ 64 := db.current.revision.toNat_lt
  by_cases hwrap : db.current.version + 1 = 2 ^ 64
  · have hwrapped : db.base.version + 1 = 2 ^ 64 := db.version_base ▸ hwrap
    have hzero : (self.register rotation db.base).version = 0 := by
      rw [Contents.version] at hwrapped ⊢
      rw [self.revision_register, UInt64.toNat_add, UInt64.toNat_one, hwrapped]
      rfl
    rw [Contents.Outranks]
    split <;> omega
  · have hnext := version_register self db rotation (by omega)
    rw [Contents.Outranks]
    split <;> omega

theorem directory_of_creates (h : self.creates env db directory = some rotation) :
    directory (self.filename rotation) = false := by
  rw [creates] at h
  split at h
  · exact opened_of_openRetry h
  · cases h

theorem tryFetch_of_open (heven : env.openStream false = true) (hodd : env.openStream true = true) :
    codec.tryFetch env db.file db.cached = .ok db.base := by
  have hfetch := db.fetch db.cached_le
  obtain ⟨even, heven', hfetch⟩ := Option.bind_eq_some_iff.mp hfetch
  obtain ⟨odd, hodd', hfetch⟩ := Option.bind_eq_some_iff.mp hfetch
  simp only [ContentsCodec.tryFetch, heven, hodd, if_true, heven', hodd', hfetch]
  rfl

theorem agrees_of_tryFetch {cached : Contents}
    (h : codec.tryFetch env db.file db.cached = .error cached) : db.Agrees cached := by
  rw [ContentsCodec.tryFetch] at h
  split at h
  · cases h
    exact db.agrees_self
  case h_2 even heven =>
    split at heven
    case isFalse => cases heven
    case isTrue =>
      split at h
      · cases h
        exact db.agrees_adopt heven
      · split at h
        · cases h
          exact db.agrees_self
        · cases h

/-- Without a file nothing has been changed. -/
theorem create_of_none (h : self.creates env db directory = none) :
    ∃ cached, db.Agrees cached ∧
      self.create codec env (db.state directory) = (none, ⟨db.file, cached, directory⟩) := by
  rw [create]
  cases hlock : env.lockRoot with
  | false => exact ⟨db.cached, db.agrees_self, rfl⟩
  | true =>
    simp only [OpenDatabase.state, Bool.true_eq_false, if_false]
    cases hfetch : codec.tryFetch env db.file db.cached with
    | error cached => exact ⟨cached, agrees_of_tryFetch hfetch, rfl⟩
    | ok base =>
      have hstreams : env.openStream false = true ∧ env.openStream true = true := by
        rw [ContentsCodec.tryFetch] at hfetch
        grind
      rw [tryFetch_of_open hstreams.1 hstreams.2] at hfetch
      cases hfetch
      rw [creates, if_pos ⟨hlock, hstreams⟩] at h
      simp only [h]
      exact ⟨db.base, db.agrees_base, rfl⟩

/-- With a file, it depends on the lock and the store. -/
theorem create_of_some (h : self.creates env db directory = some rotation) :
    self.create codec env (db.state directory) =
      if env.lockFile = false then
        (none, ⟨db.file, db.base, Function.update directory (self.filename rotation) true⟩)
      else
        let retired := codec.tryRetire env.storing db.file (self.register rotation db.base)
        let created := Function.update directory (self.filename rotation) true
        if retired.2 = false then
          (none, ⟨retired.1, db.base, unlink env created (self.filename rotation)⟩)
        else (some rotation, ⟨retired.1, self.register rotation db.base, created⟩) := by
  rw [creates] at h
  split at h
  case isFalse => cases h
  case isTrue hsteps =>
    obtain ⟨hlock, heven, hodd⟩ := hsteps
    rw [create, if_neg (by simp [hlock])]
    simp only [OpenDatabase.state, tryFetch_of_open heven hodd, h]
    split
    · rfl
    · split
      case h_1 file hretire => simp [hretire]
      case h_2 file hretire => simp [hretire]

/-- A file that has been created is unlinked again. -/
theorem unlink_created (h : self.creates env db directory = some rotation)
    (hunlink : env.unlink = true) :
    unlink env (Function.update directory (self.filename rotation) true) (self.filename rotation) =
      directory := by
  rw [unlink, if_pos hunlink, Function.update_idem, ← directory_of_creates h,
    Function.update_eq_self]

/-- The stream of the new contents behind a store, whether or not it has failed. -/
theorem tryRetire_register (self : Creation) (env : Environment) (db : OpenDatabase codec)
    (rotation : UInt32) :
    let c := self.register rotation db.base
    codec.decodeStream (codec.tryRetire env.storing db.file c).1 db.current.odd =
        some (some db.current) ∧
      codec.decodeStream (codec.tryRetire env.storing db.file c).1 (!db.current.odd) =
        some (leftover env db c) ∧
      ((codec.tryRetire env.storing db.file c).2 = true ↔ Stores codec env c) := by
  intro c
  have hodd : c.odd = !db.current.odd := odd_register self db rotation
  obtain ⟨decoded, hother, -⟩ := db.other
  rw [← hodd] at hother
  obtain ⟨hstored, ⟨mixture, hmixture⟩, hiff⟩ :=
    tryRetire_spec db.stored (by simp [hodd]) hother env.storing
  refine ⟨hstored.decodeStream, ?_, hiff⟩
  rw [leftover, ← hodd, hmixture]
  rfl

theorem restored_of_retired {cached : Contents} (hcached : db.Agrees cached)
    (self : Creation) (env : Environment) (directory : Bytes → Bool) (rotation : UInt32) :
    Restored db directory
        ⟨(codec.tryRetire env.storing db.file (self.register rotation db.base)).1, cached,
          directory⟩ ↔
      ∀ t ∈ leftover env db (self.register rotation db.base), ¬db.Misleading t := by
  obtain ⟨hcurrent, hmixture, -⟩ := tryRetire_register self env db rotation
  exact OpenDatabase.restored_iff rfl hcached hcurrent hmixture

/-- A file that is not locked is left behind. -/
theorem not_restored_of_created {file : File} {cached : Contents}
    (h : self.creates env db directory = some rotation) :
    ¬Restored db directory
      ⟨file, cached, Function.update directory (self.filename rotation) true⟩ := by
  intro hrestored
  have hname : Function.update directory (self.filename rotation) true (self.filename rotation) =
      directory (self.filename rotation) := congrFun hrestored.directory _
  rw [Function.update_self, directory_of_creates h] at hname
  cases hname

theorem create_allOrNothing_iff (self : Creation) (db : OpenDatabase codec)
    (directory : Bytes → Bool) (hunlink : env.unlink = true) :
    AllOrNothing db directory (self.create codec env) ↔ self.CleansUp env db directory := by
  rw [AllOrNothing, CleansUp]
  cases hcreates : self.creates env db directory with
  | none =>
    obtain ⟨cached, hagrees, hcreate⟩ := create_of_none hcreates
    rw [hcreate]
    constructor
    · rintro _ rotation ⟨⟩
    · intro _ _
      exact OpenDatabase.restored hagrees
  | some rotation =>
    have hunlinked := unlink_created hcreates hunlink
    obtain ⟨-, -, hstores⟩ := tryRetire_register self env db rotation
    rw [create_of_some hcreates]
    simp only [Option.mem_some, forall_eq', hunlinked]
    cases hlock : env.lockFile with
    | false =>
      have hnot : ¬Restored db directory
          ⟨db.file, db.base, Function.update directory (self.filename rotation) true⟩ :=
        not_restored_of_created hcreates
      simp [hnot]
    | true =>
      have hrestored := restored_of_retired db.agrees_base self env directory rotation
      cases hretired : (codec.tryRetire env.storing db.file (self.register rotation db.base)).2 with
      | true =>
        have hstored := hstores.mp hretired
        simp [hstored]
      | false =>
        have hfailed : ¬Stores codec env (self.register rotation db.base) := by
          rw [← hstores, hretired]
          exact Bool.false_ne_true
        simp only [Bool.true_eq_false, if_false, if_true, forall_const, hrestored, hfailed,
          not_false_eq_true, true_and]

end Creation

/-! ## The bus on the new file -/

section

variable {codec : ContentsCodec} {db : OpenDatabase codec} {directory : Bytes → Bool}
  {env : BusEnvironment} {filename : UInt32 → Bytes} {id : Bytes} {processId : UInt32}
  {infoCodec : Mpsc.InfoCodec} {epoch : Mpsc.ClockEpoch} {numRegions regionSize rotation : UInt32}

theorem initializeBus_isOk_iff (infoCodec : Mpsc.InfoCodec) (epoch : Mpsc.ClockEpoch)
    (truncate : Bool) (numRegions regionSize : UInt32) :
    (initializeBus infoCodec epoch truncate numRegions regionSize).isOk = true ↔
      Mpsc.Accepted numRegions regionSize ∧ truncate = true := by
  rw [initializeBus, Mpsc.mpscBus, if_neg (by simp)]
  cases hsize : Mpsc.busFileSize numRegions regionSize with
  | error failure =>
    have hrejected : ¬Mpsc.Accepted numRegions regionSize := by
      intro haccepted
      cases hsize.symm.trans (Mpsc.busFileSize_eq_ok_iff.mpr ⟨haccepted, rfl⟩)
    simp [hrejected, Except.isOk, Except.toBool]
  | ok fileSize =>
    have haccepted := (Mpsc.busFileSize_eq_ok_iff.mp hsize).1
    cases truncate <;> simp [haccepted, Except.isOk, Except.toBool]

/-- Fetching drops an entry whose rotation has wrapped around. -/
theorem sameEntries_messageBus_iff (db : OpenDatabase codec) (filename : UInt32 → Bytes)
    (id magic : Bytes) (processId rotation : UInt32) :
    ((Creation.messageBus filename id magic processId).register rotation db.base).SameEntries
      (db.contents db.cached) ↔ rotation = 0 := by
  let c := (Creation.messageBus filename id magic processId).register rotation db.base
  have hsame := db.base_sameEntries
  have hbuses : c.liveBuses = db.base.liveBuses ++
      if rotation = 0 then [] else [⟨filename rotation, magic, id, rotation, processId⟩] := by
    simp only [c, Creation.messageBus, Contents.liveBuses, List.filter_append]
    split <;> simp_all
  constructor
  · intro h
    have hlength := (h.2.trans hsame.2.symm).length_eq
    rw [hbuses] at hlength
    by_contra hrotation
    simp [hrotation] at hlength
  · intro hrotation
    refine ⟨hsame.1, ?_⟩
    rw [hbuses, if_pos hrotation, List.append_nil]
    exact hsame.2

/-- The entry of a new bus misleads every handle, unless its rotation has wrapped around or the
revision has. -/
theorem misleading_messageBus_iff (db : OpenDatabase codec) (filename : UInt32 → Bytes)
    (id magic : Bytes) (processId rotation : UInt32) :
    db.Misleading ((Creation.messageBus filename id magic processId).register rotation db.base) ↔
      ¬(rotation = 0 ∨ db.current.version + 1 = 2 ^ 64) := by
  let creation := Creation.messageBus filename id magic processId
  have houtranks := Creation.outranks_register_iff creation db rotation
  have hentries := sameEntries_messageBus_iff db filename id magic processId rotation
  rw [not_or, ← hentries, ← ne_eq, ← houtranks]
  constructor
  · rintro ⟨_, -, hpreferred, -, hother⟩
    exact ⟨hother, hpreferred⟩
  · rintro ⟨hother, hpreferred⟩
    have hbound : db.current.version < 2 ^ 64 := db.current.revision.toNat_lt
    have hwrap := houtranks.mp hpreferred
    have hnext := Creation.version_register creation db rotation (by omega)
    have hnewer : db.cached.version < (creation.register rotation db.base).version := by
      have hle := db.cached_le
      omega
    exact ⟨db.cached, db.agrees_self, hpreferred, hnewer, hother⟩

/-- What `db_mpsc_bus` has to clean up after: a file that cannot be locked, a store that fails, and
a bus that cannot be initialised. -/
def BusCleansUp (env : BusEnvironment) (db : OpenDatabase codec) (directory : Bytes → Bool)
    (filename : UInt32 → Bytes) (id : Bytes) (processId numRegions regionSize : UInt32) : Prop :=
  let creation := Creation.mpscBus filename id processId
  env.clone = true → creation.CleansUp env.toEnvironment db directory ∧
    ∀ rotation ∈ creation.creates env.toEnvironment db directory,
      Creation.Stores codec env.toEnvironment (creation.register rotation db.base) →
        (Mpsc.Accepted numRegions regionSize ∧ env.truncate = true) ∨
          rotation = 0 ∨ db.current.version + 1 = 2 ^ 64

/-- With a file, it also depends on the bus. -/
theorem dbMpscBus_of_some (hclone : env.clone = true)
    (h : (Creation.mpscBus filename id processId).creates env.toEnvironment db
      directory = some rotation) :
    State.dbMpscBus codec infoCodec epoch env filename id processId numRegions regionSize
        (db.state directory) =
      let c := (Creation.mpscBus filename id processId).register rotation db.base
      let retired := codec.tryRetire env.storing db.file c
      let created := Function.update directory (filename rotation) true
      let unlinked := Creation.unlink env.toEnvironment created (filename rotation)
      if env.lockFile = false then (none, ⟨db.file, db.cached, created⟩)
      else if retired.2 = false then (none, ⟨retired.1, db.cached, unlinked⟩)
      else if (initializeBus infoCodec epoch env.truncate numRegions regionSize).isOk = false then
        (none, ⟨retired.1, db.cached, unlinked⟩)
      else (some rotation, ⟨retired.1, db.cached, created⟩) := by
  rw [State.dbMpscBus, if_neg (by simp [hclone]), State.createMessageBus, Creation.create_of_some h]
  cases env.lockFile with
  | false => rfl
  | true =>
    simp only [Bool.true_eq_false, if_false]
    cases (codec.tryRetire env.storing db.file
      ((Creation.mpscBus filename id processId).register rotation db.base)).2 with
    | false => rfl
    | true =>
      cases initializeBus infoCodec epoch env.truncate numRegions regionSize with
      | error failure => rfl
      | ok opened => rfl

/-- A bus that is not initialised leaves its entry behind. -/
theorem restored_of_stores (directory : Bytes → Bool) (h : Creation.Stores codec env.toEnvironment
      ((Creation.mpscBus filename id processId).register rotation db.base)) :
    Restored db directory ⟨(codec.tryRetire env.storing db.file
        ((Creation.mpscBus filename id processId).register rotation db.base)).1, db.cached,
          directory⟩ ↔
      rotation = 0 ∨ db.current.version + 1 = 2 ^ 64 := by
  let c := (Creation.mpscBus filename id processId).register rotation db.base
  have hrestored := Creation.restored_of_retired db.agrees_self
    (Creation.mpscBus filename id processId) env.toEnvironment directory rotation
  obtain ⟨-, -, hstores⟩ := Creation.tryRetire_register
    (Creation.mpscBus filename id processId) env.toEnvironment db rotation
  have hleft : Creation.leftover env.toEnvironment db c = some c := by
    rw [Creation.leftover, (tryRetire_stored (hstores.mpr h)).decodeStream]
    rfl
  have hmisleading : db.Misleading c ↔ ¬(rotation = 0 ∨ db.current.version + 1 = 2 ^ 64) :=
    misleading_messageBus_iff db filename id mpscMagic processId rotation
  rw [hrestored, hleft]
  simp only [Option.mem_some, forall_eq', hmisleading, not_not]

theorem dbMpscBus_allOrNothing_iff (db : OpenDatabase codec) (directory : Bytes → Bool)
    (hunlink : env.unlink = true) :
    AllOrNothing db directory (State.dbMpscBus codec infoCodec epoch env filename id processId
        numRegions regionSize) ↔
      BusCleansUp env db directory filename id processId numRegions regionSize := by
  rw [AllOrNothing, BusCleansUp]
  cases hclone : env.clone with
  | false =>
    rw [State.dbMpscBus, if_pos hclone]
    simp only [OpenDatabase.restored_state, Bool.false_eq_true, false_imp_iff, implies_true]
  | true =>
    simp only [forall_const, Creation.CleansUp]
    cases hcreates : (Creation.mpscBus filename id processId).creates
        env.toEnvironment db directory with
    | none =>
      obtain ⟨cached, -, hcreate⟩ := Creation.create_of_none hcreates
      rw [State.dbMpscBus, if_neg (by simp [hclone]), State.createMessageBus, hcreate]
      constructor
      · intro _
        constructor <;> rintro rotation ⟨⟩
      · intro _ _
        exact db.restored_state directory
    | some rotation =>
      have hunlinked : Creation.unlink env.toEnvironment
          (Function.update directory (filename rotation) true) (filename rotation) = directory :=
        Creation.unlink_created hcreates hunlink
      obtain ⟨-, -, hstores⟩ := Creation.tryRetire_register
        (Creation.mpscBus filename id processId) env.toEnvironment db rotation
      have hrestored := Creation.restored_of_retired db.agrees_self
        (Creation.mpscBus filename id processId) env.toEnvironment directory rotation
      have hbus := initializeBus_isOk_iff infoCodec epoch env.truncate numRegions regionSize
      rw [dbMpscBus_of_some hclone hcreates]
      simp only [Option.mem_some, forall_eq', ← hbus, ← hstores]
      cases hlock : env.lockFile with
      | false =>
        have hnot : ¬Restored db directory
            ⟨db.file, db.cached, Function.update directory (filename rotation) true⟩ :=
          Creation.not_restored_of_created hcreates
        simp [hnot]
      | true =>
        cases hretired : (codec.tryRetire env.storing db.file
          ((Creation.mpscBus filename id processId).register rotation db.base)).2 with
        | false =>
          simp only [Bool.true_eq_false, if_false, if_true, hunlinked, hrestored, forall_const,
            Bool.false_eq_true, not_false_eq_true, false_imp_iff, true_and, and_true]
        | true =>
          have hentry := restored_of_stores directory (hstores.mp hretired)
          cases hok : (initializeBus infoCodec epoch env.truncate numRegions regionSize).isOk with
          | false =>
            simp only [Bool.true_eq_false, if_false, if_true, hunlinked, hentry, forall_const,
              not_true_eq_false, false_imp_iff, and_self, true_and, Bool.false_eq_true, false_or]
          | true => simp

end

/-! ## All or nothing -/

/-- Creation is all or nothing exactly when a file that can be created can be locked, what a failed
store leaves behind misleads nobody, and, for `db_mpsc_bus`, the bus can be initialised. -/
theorem creation_all_or_nothing_iff {codec : ContentsCodec} (db : OpenDatabase codec)
    (directory : Bytes → Bool) (env : BusEnvironment) (filename : UInt32 → Bytes)
    (sinkId : FileSinkId) (id magic : Bytes) (processId : UInt32) (infoCodec : Mpsc.InfoCodec)
    (epoch : Mpsc.ClockEpoch) (numRegions regionSize : UInt32) (hunlink : env.unlink = true) :
    (AllOrNothing db directory
        (State.createRecordContainer codec env.toEnvironment filename sinkId) ↔
      (Creation.recordContainer filename sinkId).CleansUp env.toEnvironment db directory) ∧
    (AllOrNothing db directory
        (State.createMessageBus codec env.toEnvironment filename id magic processId) ↔
      (Creation.messageBus filename id magic processId).CleansUp env.toEnvironment db directory) ∧
    (AllOrNothing db directory (State.dbMpscBus codec infoCodec epoch env filename id processId
        numRegions regionSize) ↔
      BusCleansUp env db directory filename id processId numRegions regionSize) :=
  ⟨Creation.create_allOrNothing_iff _ db directory hunlink,
    Creation.create_allOrNothing_iff _ db directory hunlink,
    dbMpscBus_allOrNothing_iff db directory hunlink⟩

def numberedName (rotation : UInt32) : Bytes := [98, 117, 115, rotation.toUInt8]

/-- No step fails by itself. -/
def sampleEnvironment : BusEnvironment where
  lockRoot := true
  openStream _ := true
  refuses _ := false
  passes := 1
  lockFile := true
  storing := none
  unlink := true
  clone := true
  truncate := true

/-- The store fails before its first block. -/
def fullDisk : BusEnvironment :=
  { sampleEnvironment with storing := some ⟨0, [], Nat.zero_le _⟩ }

/-- What has not been changed misleads nobody. -/
theorem cleansUp_fullDisk {codec : ContentsCodec} (db : OpenDatabase codec)
    (directory : Bytes → Bool) (creation : Creation) :
    creation.CleansUp fullDisk.toEnvironment db directory := by
  intro rotation _
  refine ⟨rfl, fun _ t ht hmisleading => ?_⟩
  obtain ⟨decoded, hother, hnot⟩ := db.other
  have hleft : Creation.leftover fullDisk.toEnvironment db (creation.register rotation db.base) =
      decoded := by
    rw [← Creation.odd_register creation db rotation] at hother
    rw [Creation.leftover]
    exact congrArg Option.join hother
  obtain ⟨_, -, houtranks, -⟩ := hmisleading
  exact hnot t (hleft ▸ ht) houtranks

/-- The handle that has just created a database. -/
theorem openDatabase_created : ∃ (root : RootFile) (db : OpenDatabase Plain.codec),
    RootFile.create Plain.codec = some root ∧ db.file = root.file ∧ db.current = {} ∧
      db.cached = {} := by
  have hfits : Plain.codec.Fits {} := by decide +kernel
  obtain ⟨root, hcreate, hview⟩ := RootFile.create_of_fits hfits
  have hcached : root.cached 0 = some {} := by rw [hview]; rfl
  have hstored : root.stored = {} := by rw [hview]; rfl
  exact ⟨root, .ofSound (RootFile.create_sound hcreate) hcached, hcreate, rfl, hstored, rfl⟩

/-- On a full disk everything is cleaned up. -/
theorem creation_all_or_nothing_iff_fullDisk : ∃ db : OpenDatabase Plain.codec,
    AllOrNothing db (fun _ => false) (State.createRecordContainer Plain.codec
      fullDisk.toEnvironment numberedName 7) ∧
    AllOrNothing db (fun _ => false) (State.createMessageBus Plain.codec
      fullDisk.toEnvironment numberedName [97] mpscMagic 1) ∧
    AllOrNothing db (fun _ => false) (State.dbMpscBus Plain.codec Mpsc.plainInfo Mpsc.sampleEpoch
      fullDisk numberedName [97] 1 0 4096) := by
  obtain ⟨-, db, -⟩ := openDatabase_created
  have ⟨hcontainer, hbus, hmpsc⟩ := creation_all_or_nothing_iff db (fun _ => false) fullDisk
    numberedName 7 [97] mpscMagic 1 Mpsc.plainInfo Mpsc.sampleEpoch 0 4096 rfl
  refine ⟨db, hcontainer.mpr (cleansUp_fullDisk db _ _), hbus.mpr (cleansUp_fullDisk db _ _),
    hmpsc.mpr fun _ => ⟨cleansUp_fullDisk db _ _, ?_⟩⟩
  rintro _ _ ⟨⟨⟩, _⟩

/-- A bus without regions is rejected, and its entry stays. -/
theorem creation_not_all_or_nothing : ∃ (root : RootFile) (db : OpenDatabase Plain.codec),
    RootFile.create Plain.codec = some root ∧ db.file = root.file ∧ db.cached = {} ∧
      ¬AllOrNothing db (fun _ => false) (State.dbMpscBus Plain.codec Mpsc.plainInfo
        Mpsc.sampleEpoch sampleEnvironment numberedName [97] 1 0 4096) := by
  obtain ⟨root, db, hcreate, hfile, hcurrent, hcached⟩ := openDatabase_created
  refine ⟨root, db, hcreate, hfile, hcached, fun hall => ?_⟩
  have hbase : db.base = {} := by
    rw [OpenDatabase.base, OpenDatabase.contents, hcurrent, hcached]
    decide +kernel
  have hcreates : (Creation.messageBus numberedName [97] mpscMagic 1).creates
      sampleEnvironment.toEnvironment db (fun _ => false) = some 1 := by
    rw [Creation.creates, hbase]
    decide +kernel
  have hfits : Plain.codec.Fits
      ((Creation.messageBus numberedName [97] mpscMagic 1).register 1 {}) := by
    decide +kernel
  have hcleans := ((dbMpscBus_allOrNothing_iff db (fun _ => false) rfl).mp hall rfl).2 1 hcreates
    ⟨rfl, hbase ▸ hfits⟩
  rw [hcurrent] at hcleans
  exact absurd hcleans (by decide +kernel)

end Deeplog.Database

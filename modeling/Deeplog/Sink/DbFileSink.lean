import Deeplog.Database.Entries
import Deeplog.Sink.FileSink

/-!
# A file sink and its database

`db_file_sink_backend` has each of its files from a `file_database_handle`, and reports to it how
large they have become. The base class is the backend that knows its database only as a source of
rotations; here the entries of the database are there, and the members by which a sink finds its
own one among them. Each function takes a sink with what is stored in the databases.
-/

namespace Deeplog.Sink

open Cbor (Bytes)
open Database (Contents RecordContainerMeta FileSinkId OpenOutcome entry newRotation)

/-- What a fetch finds in the databases. -/
abbrev Databases := Nat → Contents

/-- `db_file_sink_backend`, with the name of its file. A handle that has been moved away belongs to
no database. -/
structure DbFileSinkBackend extends Backend where
  fileName : Bytes
  fileDatabase : Option Nat
  sinkId : FileSinkId

namespace DbFileSinkBackend

/-- What the base class does. -/
def base (f : Backend → Backend) (s : DbFileSinkBackend) : DbFileSinkBackend :=
  { s with toBackend := f s.toBackend }

/-- The key under which the database knows the file. -/
def key (s : DbFileSinkBackend) : FileSinkId × UInt32 := (s.sinkId, .ofNat s.currentRotation)

/-- `mFileDatabase.update_record_container_size`, if it succeeds. -/
def updateRecordContainerSize (rotation newSize : UInt32) (s : DbFileSinkBackend)
    (databases : Databases) : Option Databases :=
  s.fileDatabase.bind fun db =>
    (Database.updateRecordContainerSize s.sinkId rotation newSize
      (databases db)).stores.getLast?.map
      (Function.update databases db)

variable (w : Writer) (filename : String → FileSinkId → UInt32 → Bytes) (opens : List OpenOutcome)

/-- `mFileDatabase.create_record_container`, if it succeeds, and the assignments behind it. -/
def createRecordContainer (s : DbFileSinkBackend) (databases : Databases) :
    Option (DbFileSinkBackend × Databases) :=
  s.fileDatabase.bind fun db =>
    (Database.createRecordContainer (filename s.fileNamePattern s.sinkId) s.sinkId opens
      (databases db)).stores.getLast?.bind fun contents =>
        contents.recordContainers.getLast?.map fun created =>
          ({ s.base (Backend.createContainer fun _ => created.rotation.toNat) with
              fileName := created.path },
            Function.update databases db contents)

/-- `db_file_sink_backend::do_rotate`, with the `sync_output` that it calls. -/
def doRotate (sync : DbFileSinkBackend × Databases → Option (DbFileSinkBackend × Databases))
    (s : DbFileSinkBackend) (databases : Databases) :
    Option (Bool × DbFileSinkBackend × Databases) :=
  if s.fileNamePattern.isEmpty then some (false, s, databases)
  else match s.backingFile with
    | none => (s.createRecordContainer filename opens databases).map (true, ·)
    | some file =>
      if s.currentRotation = 0 then some (false, s, databases)
      else if file.length ≤ s.maxFileSize ∧ s.epoch = s.fileEpoch then some (false, s, databases)
      else
        let rotation := s.currentRotation
        (sync ({ s.base (Backend.put w [0xff]) with currentRotation := 0 }, databases)).bind
          fun (s, databases) => s.backingFile.bind fun file =>
            let databases := (s.updateRecordContainerSize (.ofNat rotation) (.ofNat file.length)
              databases).getD databases
            ((s.base (Backend.closeFile rotation)).createRecordContainer filename opens
              databases).map (true, ·)

/-- `rotate`, with the header that a new file needs. -/
def rotate (sync : DbFileSinkBackend × Databases → Option (DbFileSinkBackend × Databases))
    (s : DbFileSinkBackend) (databases : Databases) : Option (DbFileSinkBackend × Databases) :=
  (s.doRotate w filename opens sync databases).map fun (needsInit, s, databases) =>
    (if needsInit then s.base (Backend.writeHeader w) else s, databases)

/-- `sync_output`, for recursions up to the given depth. -/
def syncOutput : Nat → DbFileSinkBackend × Databases → Option (DbFileSinkBackend × Databases)
  | 0, _ => none
  | depth + 1, (s, databases) =>
    (s.base Backend.flush).rotate w filename opens (syncOutput depth) databases

/-- `make<db_file_sink_backend>` -/
structure Config where
  maxFileSize : Nat
  database : Nat
  fileNamePattern : String
  targetBufferSize : Nat
  sinkId : FileSinkId
  attributes : Bytes

/-- A sink as the maker constructs it, with a clone of the database handle. -/
def Config.start (config : Config) (epoch : Epoch) : DbFileSinkBackend :=
  { Backend.start config.maxFileSize config.targetBufferSize config.fileNamePattern
      config.attributes epoch with
    fileName := []
    fileDatabase := some config.database
    sinkId := config.sinkId }

def make (config : Config) (epoch : Epoch) (databases : Databases) :
    Option (DbFileSinkBackend × Databases) :=
  (config.start epoch).rotate w filename opens (syncOutput w filename opens Backend.maxDepth)
    databases

/-- `file_sink_backend::finalize`, with the size that it returns. -/
def finalize (s : DbFileSinkBackend) (databases : Databases) :
    Option (UInt32 × DbFileSinkBackend × Databases) :=
  match s.backingFile with
  | none => some (0, s, databases)
  | some _ =>
    (syncOutput w filename opens Backend.maxDepth (s.base (Backend.put w [0xff]), databases)).bind
      fun (s, databases) => s.backingFile.map fun file =>
        (.ofNat file.length,
          { s.base (Backend.closeFile s.currentRotation) with buffered := [] }, databases)

/-! ## Transfer -/

variable (residue : String → String)

/-- The move constructor: the new sink, and what it leaves behind. -/
def moveConstruct (other : DbFileSinkBackend) : DbFileSinkBackend × DbFileSinkBackend :=
  ({ other with created := 0, closed := [], sizes := [] },
    { other with
      buffered := []
      backingFile := none
      fileName := []
      bufferSize := 0
      containerInfo := []
      fileDatabase := none
      fileNamePattern := residue other.fileNamePattern })

/-- The assignments of the two `operator=`. `mFileEpoch` is not among them. -/
def assign (s other : DbFileSinkBackend) : DbFileSinkBackend × DbFileSinkBackend :=
  ({ s with
      buffered := other.buffered
      backingFile := other.backingFile
      fileName := other.fileName
      bufferSize := other.bufferSize
      targetBufferSize := other.targetBufferSize
      containerInfo := other.containerInfo
      maxFileSize := other.maxFileSize
      fileDatabase := other.fileDatabase
      fileNamePattern := other.fileNamePattern
      sinkId := other.sinkId
      currentRotation := other.currentRotation },
    { other with
      buffered := []
      backingFile := none
      fileName := []
      bufferSize := 0
      targetBufferSize := 0
      containerInfo := []
      maxFileSize := 0
      fileDatabase := none
      fileNamePattern := residue other.fileNamePattern
      sinkId := 0
      currentRotation := 0 })

/-- `db_file_sink_backend::operator=`. The language leaves open whether `mCurrentRotation` is read
before or after `finalize` has run. -/
def moveAssign (rotationFirst : Bool) (s other : DbFileSinkBackend) (databases : Databases) :
    Option (DbFileSinkBackend × DbFileSinkBackend × Databases) :=
  (s.finalize w filename opens databases).bind fun (size, finalized, databases) =>
    let rotation := if rotationFirst then s.currentRotation else finalized.currentRotation
    (finalized.updateRecordContainerSize (.ofNat rotation) size databases).map fun databases =>
      let assigned := finalized.assign residue other
      (assigned.1, assigned.2, databases)

/-- What `lhs` is after the two `swap`. `mContainerInfo` and `mFileEpoch` stay where they are. -/
def swapped (lhs rhs : DbFileSinkBackend) : DbFileSinkBackend :=
  { lhs with
    buffered := rhs.buffered
    backingFile := rhs.backingFile
    fileName := rhs.fileName
    bufferSize := rhs.bufferSize
    targetBufferSize := rhs.targetBufferSize
    maxFileSize := rhs.maxFileSize
    fileDatabase := rhs.fileDatabase
    fileNamePattern := rhs.fileNamePattern
    sinkId := rhs.sinkId
    currentRotation := rhs.currentRotation }

end DbFileSinkBackend

/-! ## What is done to the databases -/

/-- Entries stay where they are found, and nothing but their size changes. -/
def Extends (before after : Databases) : Prop :=
  ∀ db key rcm, entry (before db) key = some rcm →
    ∃ size, entry (after db) key = some { rcm with byteSize := size }

theorem Extends.refl (databases : Databases) : Extends databases databases :=
  fun _ _ rcm h => ⟨rcm.byteSize, h⟩

theorem Extends.trans {first second third : Databases} (h : Extends first second)
    (h' : Extends second third) : Extends first third := by
  intro db key rcm hrcm
  obtain ⟨size, hsize⟩ := h db key rcm hrcm
  exact h' db key { rcm with byteSize := size } hsize

namespace DbFileSinkBackend

variable {w : Writer} {filename : String → FileSinkId → UInt32 → Bytes} {opens : List OpenOutcome}
  {s s' : DbFileSinkBackend} {databases databases' : Databases} {db : Nat} {bytes : Bytes}

theorem updateRecordContainerSize_eq {rotation size : UInt32} (hdb : s.fileDatabase = some db)
    (h : s.updateRecordContainerSize rotation size databases = some databases') :
    (∀ rcm, entry (databases db) (s.sinkId, rotation) = some rcm →
        entry (databases' db) (s.sinkId, rotation) = some { rcm with byteSize := size }) ∧
      (databases' db).containerKeys = (databases db).containerKeys ∧
      ∀ other key, other ≠ db ∨ key ≠ (s.sinkId, rotation) →
        entry (databases' other) key = entry (databases other) key := by
  rw [updateRecordContainerSize, hdb, Option.bind_some] at h
  obtain ⟨stored, hstored, rfl⟩ := Option.map_eq_some_iff.mp h
  have hmem := List.mem_of_getLast? hstored
  obtain ⟨hsame, hothers⟩ := Database.entry_resized hmem
  refine ⟨fun rcm hrcm => ?_, ?_, fun other key hne => ?_⟩
  · rw [Function.update_self, hsame, hrcm, Option.map_some]
  · rw [Function.update_self, Database.resize_keys hmem]
  · by_cases hother : other = db
    · subst hother
      rw [Function.update_self, hothers key (hne.resolve_left (not_not.mpr rfl))]
    · rw [Function.update_of_ne hother]

theorem updateRecordContainerSize_extends {rotation size : UInt32}
    (h : s.updateRecordContainerSize rotation size databases = some databases') :
    Extends databases databases' := by
  intro other key rcm hrcm
  obtain ⟨db, hdb⟩ : ∃ db, s.fileDatabase = some db := by
    obtain ⟨db, hdb, -⟩ := Option.bind_eq_some_iff.mp h
    exact ⟨db, hdb⟩
  obtain ⟨hown, -, hothers⟩ := updateRecordContainerSize_eq hdb h
  by_cases hsame : other = db ∧ key = (s.sinkId, rotation)
  · obtain ⟨rfl, rfl⟩ := hsame
    exact ⟨size, hown rcm hrcm⟩
  · refine ⟨rcm.byteSize, ?_⟩
    rw [hothers other key (not_and_or.mp hsame), hrcm]

/-- The key of a sink is that of the backend below. -/
theorem key_base {f : Backend → Backend} (h : (f s.toBackend).core = s.core) :
    (s.base f).key = s.key := by
  obtain ⟨-, -, -, -, hrotation, -, -⟩ := Backend.core_inj h
  exact congrArg (fun rotation => (s.sinkId, UInt32.ofNat rotation)) hrotation

/-- The rotation that the database has next for the sink is not in use, and not 0. Only close to
`2 ^ 32` it could be. -/
def Fresh (opens : List OpenOutcome) (s : DbFileSinkBackend) (databases : Databases) : Prop :=
  ∀ db ∈ s.fileDatabase, ∀ rotation ∈ newRotation s.sinkId opens (databases db),
    rotation ≠ 0 ∧ entry (databases db) (s.sinkId, rotation) = none

instance (opens : List OpenOutcome) (s : DbFileSinkBackend) (databases : Databases) :
    Decidable (s.Fresh opens databases) :=
  @Option.decidableForallMem _ _ (fun db =>
    Option.decidableForallMem (newRotation s.sinkId opens (databases db))) s.fileDatabase

/-- The sink has an entry of its own for a new and empty file. -/
structure Created (s : DbFileSinkBackend) (databases : Databases) (s' : DbFileSinkBackend)
    (databases' : Databases) : Prop where
  backend : s'.toBackend = s.createContainer fun _ => s'.currentRotation
  members : s'.fileDatabase = s.fileDatabase ∧ s'.sinkId = s.sinkId
  rotation_ne : s'.key.2 ≠ 0
  kept : ∀ db key rcm, entry (databases db) key = some rcm → entry (databases' db) key = some rcm
  added : ∃ db, s.fileDatabase = some db ∧ entry (databases db) s'.key = none ∧
    entry (databases' db) s'.key = some ⟨s'.fileName, 0, s'.key.1, s'.key.2⟩

theorem createRecordContainer_created (hfresh : s.Fresh opens databases)
    (h : s.createRecordContainer filename opens databases = some (s', databases')) :
    Created s databases s' databases' := by
  obtain ⟨db, hdb, h⟩ := Option.bind_eq_some_iff.mp h
  rw [Database.createRecordContainer_stores] at h
  cases hnew : newRotation s.sinkId opens (databases db) with
  | none => simp [hnew] at h
  | some rotation =>
    simp only [hnew, Option.map_some, Option.toList_some, List.getLast?_singleton,
      Option.bind_some, List.getLast?_concat, Option.some.injEq, Prod.mk.injEq] at h
    obtain ⟨rfl, rfl⟩ := h
    obtain ⟨hne, hnone⟩ := hfresh db hdb rotation hnew
    have hkey : UInt32.ofNat rotation.toNat = rotation := UInt32.ofNat_toNat
    refine ⟨rfl, ⟨rfl, rfl⟩, ?_, ?_, db, hdb, ?_, ?_⟩
    · rw [key]
      exact hkey.symm ▸ hne
    · intro other key rcm hrcm
      by_cases hother : other = db
      · subst hother
        rw [Function.update_self, Database.entry_created, hrcm, Option.some_or]
      · rw [Function.update_of_ne hother, hrcm]
    · simpa [key, base, Backend.createContainer, hkey] using hnone
    · rw [Function.update_self, Database.entry_created]
      simp [key, base, Backend.createContainer, hkey, hnone, RecordContainerMeta.key]

theorem Created.extends (h : Created s databases s' databases') : Extends databases databases' :=
  fun db key rcm hrcm => ⟨rcm.byteSize, h.kept db key rcm hrcm⟩

/-- An entry that was there before is that of another container. -/
theorem Created.entry_kept (h : Created s databases s' databases') {db : Nat}
    {key : FileSinkId × UInt32} {rcm : RecordContainerMeta} (hdb : s.fileDatabase = some db)
    (hrcm : entry (databases db) key = some rcm) :
    s'.key ≠ key ∧ entry (databases' db) key = some rcm := by
  refine ⟨fun hsame => ?_, h.kept db key rcm hrcm⟩
  obtain ⟨db', hdb', hnone, -⟩ := h.added
  cases hdb'.symm.trans hdb
  rw [hsame, hrcm] at hnone
  cases hnone

/-- What is not in use now has not been in use before. -/
theorem Extends.unused (h : Extends databases databases') {db : Nat} {key : FileSinkId × UInt32}
    (hnone : entry (databases' db) key = none) : entry (databases db) key = none := by
  cases hbefore : entry (databases db) key with
  | none => rfl
  | some rcm =>
    obtain ⟨size, hafter⟩ := h db key rcm hbefore
    cases hnone.symm.trans hafter

/-- Sizes do not matter to the next rotation. -/
theorem Fresh.congr (h : s.Fresh opens databases) (hdb : s'.fileDatabase = s.fileDatabase)
    (hid : s'.sinkId = s.sinkId)
    (hkeys : ∀ db ∈ s.fileDatabase, (databases' db).containerKeys = (databases db).containerKeys) :
    s'.Fresh opens databases' := by
  intro db hmem rotation hrotation
  rw [hdb] at hmem
  rw [hid, Database.newRotation_congr s.sinkId opens (hkeys db hmem)] at hrotation
  obtain ⟨hne, hnone⟩ := h db hmem rotation hrotation
  refine ⟨hne, ?_⟩
  rw [entry, List.find?_eq_none] at hnone ⊢
  intro rcm hrcm
  have hmem' : rcm.key ∈ (databases db).containerKeys :=
    hkeys db hmem ▸ List.mem_map_of_mem hrcm
  obtain ⟨old, hold, heq⟩ := List.mem_map.mp hmem'
  rw [hid, ← heq]
  exact hnone old hold

/-! ## Synchronisation -/

/-- A sink that keeps its file has written everything to it. -/
theorem syncOutput_keeps (hc : s.content = some bytes) (hkeeps : s.Keeps bytes.length) (depth : Nat)
    (databases : Databases) :
    syncOutput w filename opens (depth + 1) (s, databases) =
      some (s.base Backend.flush, databases) := by
  obtain ⟨hfile, -, hcore⟩ := Backend.flush_content s.toBackend
  rw [hc] at hfile
  have hkeeps' := (Backend.keeps_congr hcore _).mpr hkeeps
  simp only [syncOutput, rotate, doRotate, base, hfile]
  unfold Backend.Keeps at hkeeps'
  split_ifs <;> simp_all

/-- The sink has closed its file, with a break at the end, and gone over to a new one. -/
structure Rotated (s : DbFileSinkBackend) (databases : Databases) (bytes file : Bytes)
    (s' : DbFileSinkBackend) (databases' : Databases) : Prop where
  backend : Backend.Rotated s.toBackend s'.toBackend bytes file
  members : s'.fileDatabase = s.fileDatabase ∧ s'.sinkId = s.sinkId ∧
    s'.fileNamePattern = s.fileNamePattern ∧ s'.maxFileSize = s.maxFileSize
  rotation_ne : s'.key.2 ≠ 0
  grown : Extends databases databases'
  reported : ∀ db ∈ s.fileDatabase, ∀ rcm, entry (databases db) s.key = some rcm →
    s'.key ≠ s.key ∧
      entry (databases' db) s.key = some { rcm with byteSize := .ofNat (bytes.length + 1) }
  others : ∀ db key rcm, entry (databases db) key = some rcm →
    s.fileDatabase ≠ some db ∨ key ≠ s.key → entry (databases' db) key = some rcm
  added : ∃ db, s.fileDatabase = some db ∧ entry (databases db) s'.key = none ∧
    entry (databases' db) s'.key = some ⟨s'.fileName, 0, s'.key.1, s'.key.2⟩

/-- A sink without a file has received one. -/
structure Opened (s : DbFileSinkBackend) (databases : Databases) (s' : DbFileSinkBackend)
    (databases' : Databases) : Prop where
  file : s'.backingFile = some (Backend.header s.epoch s.containerInfo)
  buffered : s'.buffered = []
  fileEpoch : s'.fileEpoch = s.epoch
  containerInfo : s'.containerInfo = s.containerInfo
  log : s'.closed = s.closed
  members : s'.fileDatabase = s.fileDatabase ∧ s'.sinkId = s.sinkId ∧
    s'.fileNamePattern = s.fileNamePattern
  pattern_ne : s.fileNamePattern.isEmpty = false
  rotation_ne : s'.key.2 ≠ 0
  kept : ∀ db key rcm, entry (databases db) key = some rcm → entry (databases' db) key = some rcm
  added : ∃ db, s.fileDatabase = some db ∧ entry (databases db) s'.key = none ∧
    entry (databases' db) s'.key = some ⟨s'.fileName, 0, s'.key.1, s'.key.2⟩

theorem Opened.grown (h : Opened s databases s' databases') : Extends databases databases' :=
  fun db key rcm hrcm => ⟨rcm.byteSize, h.kept db key rcm hrcm⟩

/-- What `do_rotate` reports. An entry that has disappeared is none of its business. -/
theorem report_spec (rotation size : UInt32) (s : DbFileSinkBackend) (databases : Databases) :
    Extends databases
        ((s.updateRecordContainerSize rotation size databases).getD databases) ∧
      (∀ db ∈ s.fileDatabase,
        (((s.updateRecordContainerSize rotation size databases).getD databases) db).containerKeys =
          (databases db).containerKeys ∧
        ∀ rcm, entry (databases db) (s.sinkId, rotation) = some rcm →
          entry (((s.updateRecordContainerSize rotation size databases).getD databases) db)
            (s.sinkId, rotation) = some { rcm with byteSize := size }) ∧
      ∀ db key, s.fileDatabase ≠ some db ∨ key ≠ (s.sinkId, rotation) →
        entry (((s.updateRecordContainerSize rotation size databases).getD databases) db) key =
          entry (databases db) key := by
  cases h : s.updateRecordContainerSize rotation size databases with
  | some databases' =>
    refine ⟨updateRecordContainerSize_extends h, fun db hdb => ?_, fun other key hne => ?_⟩
    · obtain ⟨hown, hkeys, -⟩ := updateRecordContainerSize_eq hdb h
      exact ⟨hkeys, hown⟩
    · obtain ⟨db, hdb, -⟩ := Option.bind_eq_some_iff.mp h
      obtain ⟨-, -, hothers⟩ := updateRecordContainerSize_eq hdb h
      refine hothers other key (hne.imp_left fun hother heq => hother ?_)
      rw [hdb, heq]
  | none =>
    refine ⟨.refl _, fun db hdb => ⟨rfl, fun rcm hrcm => ?_⟩, fun _ _ _ => rfl⟩
    obtain ⟨stored, hstored⟩ := Database.resize_stores size hrcm
    rw [updateRecordContainerSize, Option.mem_def.mp hdb, Option.bind_some, hstored] at h
    cases h

/-- The first file of a sink, if it is to have one. -/
theorem rotate_closed
    {sync : DbFileSinkBackend × Databases → Option (DbFileSinkBackend × Databases)}
    (hfile : s.backingFile = none) (hfresh : s.Fresh opens databases)
    (h : s.rotate w filename opens sync databases = some (s', databases')) :
    (s' = s ∧ databases' = databases) ∨ Opened s databases s' databases' := by
  obtain ⟨⟨needsInit, u, databases₂⟩, hrotate, heq⟩ := Option.map_eq_some_iff.mp h
  rw [doRotate, hfile] at hrotate
  by_cases hpattern : s.fileNamePattern.isEmpty = true
  · rw [if_pos hpattern] at hrotate
    cases hrotate
    cases heq
    exact .inl ⟨rfl, rfl⟩
  rw [if_neg hpattern] at hrotate
  obtain ⟨⟨v, databases₃⟩, hcreate, hpair⟩ := Option.map_eq_some_iff.mp hrotate
  cases hpair
  dsimp only at heq
  rw [if_pos rfl] at heq
  cases heq
  have hcreated := createRecordContainer_created hfresh hcreate
  have hopen : u.backingFile = some [] := by rw [hcreated.backend]; rfl
  obtain ⟨hwfile, hwempty, hwcore⟩ := Backend.writeHeader_content w hopen
  obtain ⟨winfo, -, wfileEpoch, wpattern, -, wepoch, wclosed⟩ := Backend.core_inj hwcore
  have hepoch : u.epoch = s.epoch := by rw [hcreated.backend]; rfl
  have hfileEpoch : u.fileEpoch = s.epoch := by rw [hcreated.backend]; rfl
  have hinfo : u.containerInfo = s.containerInfo := by rw [hcreated.backend]; rfl
  have hlog : u.closed = s.closed := by rw [hcreated.backend]; rfl
  have hname : u.fileNamePattern = s.fileNamePattern := by rw [hcreated.backend]; rfl
  have hkey := key_base hwcore
  obtain ⟨db, hdb, hnone, hadded⟩ := hcreated.added
  refine .inr ⟨?_, hwempty, wfileEpoch.trans hfileEpoch, winfo.trans hinfo, wclosed.trans hlog,
    ⟨hcreated.members.1, hcreated.members.2, wpattern.trans hname⟩, by simpa using hpattern, ?_,
    hcreated.kept, db, hdb, ?_, ?_⟩
  · rw [← hepoch, ← hinfo]
    exact hwfile
  · rw [hkey]
    exact hcreated.rotation_ne
  · rw [hkey]
    exact hnone
  · rw [hkey]
    exact hadded

/-- The break goes out with a `sync_output` that finds the rotation zeroed. -/
theorem doRotate_rotates {needsInit : Bool} {depth : Nat} (hfile : s.backingFile = some bytes)
    (hempty : s.buffered = []) (hkeeps : ¬s.Keeps bytes.length) (hfresh : s.Fresh opens databases)
    (h : s.doRotate w filename opens (syncOutput w filename opens (depth + 1)) databases =
      some (needsInit, s', databases')) :
    needsInit = true ∧ Rotated s databases bytes [] s' databases' := by
  simp only [Backend.Keeps, not_or] at hkeeps
  have hbreak := Backend.put_wrote w [0xff] s.toBackend
  obtain ⟨pinfo, pmax, -, ppattern, -, pepoch, pclosed⟩ := Backend.core_inj hbreak.core_eq
  let t : DbFileSinkBackend := { s.base (Backend.put w [0xff]) with currentRotation := 0 }
  have ht : t.content = some (bytes ++ [0xff]) := by
    have hcontent := hbreak.content
    rwa [show s.content = some bytes by simp [Backend.content, hfile, hempty],
      Option.map_some] at hcontent
  have hsync : syncOutput w filename opens (depth + 1) (t, databases) =
      some (t.base Backend.flush, databases) :=
        syncOutput_keeps ht (.inr (.inl rfl)) depth databases
  obtain ⟨htfile, htempty, htcore⟩ := Backend.flush_content t.toBackend
  rw [ht] at htfile
  obtain ⟨tinfo, tmax, -, tpattern, -, tepoch, tclosed⟩ := Backend.core_inj htcore
  obtain ⟨hextends, hreport, hothers⟩ := report_spec (.ofNat s.currentRotation)
    (.ofNat (bytes ++ [0xff]).length) (t.base Backend.flush) databases
  rw [doRotate, if_neg hkeeps.1] at h
  simp only [hfile] at h
  rw [if_neg hkeeps.2.1, if_neg hkeeps.2.2] at h
  change (Option.bind (syncOutput w filename opens (depth + 1) (t, databases)) _) = _ at h
  have hopen : (t.base Backend.flush).backingFile = some (bytes ++ [0xff]) := htfile
  simp only [hsync, hopen, Option.bind_some] at h
  obtain ⟨⟨u, databases₂⟩, hcreate, heq⟩ := Option.map_eq_some_iff.mp h
  cases heq
  let closed := (t.base Backend.flush).base (Backend.closeFile s.currentRotation)
  have hclosed : closed.Fresh opens _ :=
    Fresh.congr hfresh rfl rfl fun db hdb => (hreport db hdb).1
  have hcreated := createRecordContainer_created hclosed hcreate
  have hepoch : closed.epoch = s.epoch := tepoch.trans pepoch
  have hlog : closed.closed = s.closed ++ [(s.currentRotation, bytes ++ [0xff])] := by
    have hbefore : t.flush.closed = s.closed := tclosed.trans pclosed
    have hafter := Backend.closeFile_closed s.currentRotation htfile
    rwa [hbefore] at hafter
  refine ⟨rfl, ⟨?_, ?_, ?_, ?_, ?_, ?_⟩, ?_, hcreated.rotation_ne,
    hextends.trans hcreated.extends, ?_, ?_, ?_⟩
  · rw [hcreated.backend]; rfl
  · rw [hcreated.backend]; exact htempty
  · rw [hcreated.backend]; exact hlog
  · rw [hcreated.backend]; exact hepoch
  · rw [hcreated.backend]; exact hepoch
  · rw [hcreated.backend]; exact tinfo.trans pinfo
  · refine ⟨hcreated.members.1, hcreated.members.2, ?_, ?_⟩
    · rw [hcreated.backend]; exact tpattern.trans ppattern
    · rw [hcreated.backend]; exact tmax.trans pmax
  · intro db hdb rcm hrcm
    have hresized := (hreport db hdb).2 rcm hrcm
    have hlength : bytes.length + 1 = (bytes ++ [0xff]).length := by simp
    rw [hlength]
    exact hcreated.entry_kept hdb hresized
  · intro db other rcm hrcm hne
    exact hcreated.kept db other rcm ((hothers db other hne).trans hrcm)
  · obtain ⟨db, hdb, hnone, hadded⟩ := hcreated.added
    exact ⟨db, hdb, Extends.unused hextends hnone, hadded⟩

/-- A write or a flush before makes no difference to what rotation does. -/
theorem Rotated.of_base {f : Backend → Backend} {file : Bytes}
    (hcore : (f s.toBackend).core = s.core)
    (h : Rotated (s.base f) databases bytes file s' databases') :
    Rotated s databases bytes file s' databases' := by
  obtain ⟨hinfo, hmax, -, hpattern, hrotation, hepoch, hclosed⟩ := Backend.core_inj hcore
  have hkey := key_base hcore
  obtain ⟨hdb, hid, hname, hsize⟩ := h.members
  refine ⟨⟨h.backend.file, h.backend.buffered, ?_, ?_, ?_, ?_⟩, ⟨hdb, hid, hname.trans hpattern,
    hsize.trans hmax⟩, h.rotation_ne, h.grown, ?_, ?_, h.added⟩
  · rw [← hclosed, ← hrotation]
    exact h.backend.closed
  · exact h.backend.fileEpoch.trans hepoch
  · exact h.backend.epoch.trans hepoch
  · exact h.backend.containerInfo.trans hinfo
  · rw [← hkey]
    exact h.reported
  · rw [← hkey]
    exact h.others

/-- The new file starts with its header. -/
theorem Rotated.writeHeader (h : Rotated s databases bytes [] s' databases') :
    Rotated s databases bytes (Backend.header s.epoch s.containerInfo)
      (s'.base (Backend.writeHeader w)) databases' := by
  obtain ⟨hfile, hempty, hcore⟩ := Backend.writeHeader_content w h.backend.file
  obtain ⟨hinfo, hmax, hfileEpoch, hpattern, -, hepoch, hclosed⟩ := Backend.core_inj hcore
  have hkey := key_base hcore
  obtain ⟨hdb, hid, hname, hsize⟩ := h.members
  refine ⟨⟨?_, hempty, ?_, ?_, ?_, ?_⟩, ⟨hdb, hid, ?_, ?_⟩, ?_, h.grown, ?_, h.others, ?_⟩
  · rw [← h.backend.containerInfo, ← h.backend.epoch]
    exact hfile
  · exact hclosed.trans h.backend.closed
  · exact hfileEpoch.trans h.backend.fileEpoch
  · exact hepoch.trans h.backend.epoch
  · exact hinfo.trans h.backend.containerInfo
  · exact hpattern.trans hname
  · exact hmax.trans hsize
  · rw [hkey]
    exact h.rotation_ne
  · rw [hkey]
    exact h.reported
  · rw [hkey]
    exact h.added

/-- A file that has to be left is left. -/
theorem syncOutput_rotates {depth : Nat} (hc : s.content = some bytes)
    (hkeeps : ¬s.Keeps bytes.length) (hfresh : s.Fresh opens databases)
    (h : syncOutput w filename opens (depth + 2) (s, databases) = some (s', databases')) :
    Rotated s databases bytes (Backend.header s.epoch s.containerInfo) s' databases' := by
  obtain ⟨hfile, hempty, hcore⟩ := Backend.flush_content s.toBackend
  rw [hc] at hfile
  obtain ⟨⟨needsInit, u, databases₂⟩, hrotate, heq⟩ := Option.map_eq_some_iff.mp h
  have hflushed : (s.base Backend.flush).Fresh opens databases :=
    Fresh.congr hfresh rfl rfl fun _ _ => rfl
  obtain ⟨rfl, hrotated⟩ := doRotate_rotates hfile hempty
    (mt (Backend.keeps_congr hcore _).mp hkeeps) hflushed hrotate
  dsimp only at heq
  rw [if_pos rfl] at heq
  cases heq
  exact (hrotated.of_base hcore).writeHeader

theorem rotation_ne_of_key (h : s.key.2 ≠ 0) : s.currentRotation ≠ 0 := by
  intro hzero
  apply h
  rw [key, hzero]
  rfl

theorem content_of_open {file : Bytes} (h : s.backingFile = some file) :
    s.content = some (file ++ s.buffered) := by
  rw [Backend.content, h, Option.map_some]

theorem closed_content (h : s.backingFile = none) : s.content = none := by
  rw [Backend.content, h, Option.map_none]

/-- What `sync_output` can come down to: nothing, a first file, a flush, or a new file. -/
inductive Synced (s : DbFileSinkBackend) (databases : Databases) :
    DbFileSinkBackend → Databases → Prop
  | closed (hfile : s.backingFile = none) : Synced s databases (s.base Backend.flush) databases
  | opened {s' : DbFileSinkBackend} {databases' : Databases} (hfile : s.backingFile = none)
      (hopened : Opened (s.base Backend.flush) databases s' databases') :
      Synced s databases s' databases'
  | kept {file : Bytes} (hfile : s.backingFile = some file)
      (hkeeps : s.Keeps (file ++ s.buffered).length) :
      Synced s databases (s.base Backend.flush) databases
  | rotated {s' : DbFileSinkBackend} {databases' : Databases} {file : Bytes}
      (hfile : s.backingFile = some file) (hkeeps : ¬s.Keeps (file ++ s.buffered).length)
      (hrotated : Rotated s databases (file ++ s.buffered)
        (Backend.header s.epoch s.containerInfo) s' databases') :
      Synced s databases s' databases'

theorem syncOutput_cases (hfresh : s.Fresh opens databases)
    (h : syncOutput w filename opens Backend.maxDepth (s, databases) = some (s', databases')) :
    Synced s databases s' databases' := by
  cases hfile : s.backingFile with
  | none =>
    have hclosed : (s.base Backend.flush).backingFile = none :=
      (Backend.flush_content s.toBackend).1.trans (closed_content hfile)
    have hflushed : (s.base Backend.flush).Fresh opens databases :=
      Fresh.congr hfresh rfl rfl fun _ _ => rfl
    rcases rotate_closed hclosed hflushed h with ⟨rfl, rfl⟩ | hopened
    · exact .closed hfile
    · exact .opened hfile hopened
  | some file =>
    have hc := content_of_open hfile
    by_cases hkeeps : s.Keeps (file ++ s.buffered).length
    · rw [Backend.maxDepth, syncOutput_keeps hc hkeeps] at h
      cases h
      exact .kept hfile hkeeps
    · exact .rotated hfile hkeeps (syncOutput_rotates hc hkeeps hfresh h)

/-! ## The end of a sink -/

/-- What `finalize` can come down to. The break may be the byte too much for the file, and the epoch
may have changed since the last `sync_output`: then the sink ends with a file that has a header and
nothing else. -/
inductive Finalized (s : DbFileSinkBackend) (databases : Databases) :
    UInt32 → DbFileSinkBackend → Databases → Prop
  | closed (hfile : s.backingFile = none) : Finalized s databases 0 s databases
  | kept {s' : DbFileSinkBackend} {bytes : Bytes} (hc : s.content = some bytes)
      (hkeeps : s.Keeps (bytes.length + 1)) (hfile : s'.backingFile = none)
      (hlog : s'.closed = s.closed ++ [(s.currentRotation, bytes ++ [0xff])])
      (hepoch : s'.fileEpoch = s.fileEpoch)
      (hmembers : s'.fileDatabase = s.fileDatabase ∧ s'.key = s.key) :
      Finalized s databases (.ofNat (bytes.length + 1)) s' databases
  | rotated {s' t : DbFileSinkBackend} {databases' : Databases} {bytes : Bytes}
      (hc : s.content = some bytes) (hkeeps : ¬s.Keeps (bytes.length + 1))
      (hrotated : Rotated s databases (bytes ++ [0xff]) (Backend.header s.epoch s.containerInfo)
        t databases')
      (hfile : s'.backingFile = none)
      (hlog : s'.closed = t.closed ++
        [(t.currentRotation, Backend.header s.epoch s.containerInfo)])
      (hepoch : s'.fileEpoch = t.fileEpoch)
      (hmembers : s'.fileDatabase = t.fileDatabase ∧ s'.key = t.key) :
      Finalized s databases (.ofNat (Backend.header s.epoch s.containerInfo).length) s' databases'

theorem finalize_kept {t : DbFileSinkBackend} {databases₂ : Databases} {file last : Bytes}
    (hopen : s.backingFile = some file)
    (hkeeps : s.Keeps ((file ++ s.buffered).length + 1))
    (hsync : syncOutput w filename opens Backend.maxDepth
      (s.base (Backend.put w [0xff]), databases) =
      some (t, databases₂)) (hlast : t.backingFile = some last) :
    Finalized s databases (.ofNat last.length)
      { t.base (Backend.closeFile t.currentRotation) with buffered := [] } databases₂ := by
  have hbreak := Backend.put_wrote w [0xff] s.toBackend
  obtain ⟨-, -, pfileEpoch, -, protation, -, pclosed⟩ := Backend.core_inj hbreak.core_eq
  have hc := content_of_open hopen
  have hbroken : (s.base (Backend.put w [0xff])).content =
      some (file ++ s.buffered ++ [0xff]) := by
    rw [base, hbreak.content, hc, Option.map_some]
  rw [Backend.maxDepth,
    syncOutput_keeps hbroken ((Backend.keeps_break_iff w s.toBackend _).mpr hkeeps)] at hsync
  cases hsync
  obtain ⟨hflushed, -, hcore⟩ := Backend.flush_content (s.put w [0xff])
  obtain ⟨-, -, ffileEpoch, -, frotation, -, fclosed⟩ := Backend.core_inj hcore
  have hwhole := hflushed.trans hbroken
  cases hlast.symm.trans hwhole
  have hlength : (file ++ s.buffered ++ [0xff]).length = (file ++ s.buffered).length + 1 :=
    List.length_append
  rw [hlength]
  refine .kept hc hkeeps rfl ?_ (ffileEpoch.trans pfileEpoch) ⟨rfl, ?_⟩
  · refine (Backend.closeFile_closed _ hwhole).trans ?_
    rw [fclosed, pclosed]
    exact congrArg (fun rotation => s.closed ++ [(rotation, _)]) (frotation.trans protation)
  · exact congrArg (fun rotation => (s.sinkId, UInt32.ofNat rotation))
      (frotation.trans protation)

theorem finalize_rotated {t : DbFileSinkBackend} {databases₂ : Databases} {file last : Bytes}
    (hfresh : s.Fresh opens databases) (hopen : s.backingFile = some file)
    (hkeeps : ¬s.Keeps ((file ++ s.buffered).length + 1))
    (hsync : syncOutput w filename opens Backend.maxDepth
      (s.base (Backend.put w [0xff]), databases) =
      some (t, databases₂)) (hlast : t.backingFile = some last) :
    Finalized s databases (.ofNat last.length)
      { t.base (Backend.closeFile t.currentRotation) with buffered := [] } databases₂ := by
  have hbreak := Backend.put_wrote w [0xff] s.toBackend
  obtain ⟨pinfo, -, -, -, -, pepoch, -⟩ := Backend.core_inj hbreak.core_eq
  have hc := content_of_open hopen
  have hbroken : (s.base (Backend.put w [0xff])).content =
      some (file ++ s.buffered ++ [0xff]) := by
    rw [base, hbreak.content, hc, Option.map_some]
  have hfresh' : (s.base (Backend.put w [0xff])).Fresh opens databases :=
    Fresh.congr hfresh rfl rfl fun _ _ => rfl
  have hheader : Backend.header (s.put w [0xff]).epoch (s.put w [0xff]).containerInfo =
      Backend.header s.epoch s.containerInfo := by rw [pepoch, pinfo]
  have hrotated : Rotated s databases (file ++ s.buffered ++ [0xff])
      (Backend.header s.epoch s.containerInfo) t databases₂ := by
    rw [← hheader]
    exact (syncOutput_rotates hbroken
      (mt (Backend.keeps_break_iff w s.toBackend _).mp hkeeps) hfresh' hsync).of_base hbreak.core_eq
  cases hlast.symm.trans hrotated.backend.file
  exact .rotated hc hkeeps hrotated rfl
    (Backend.closeFile_closed _ hrotated.backend.file) rfl ⟨rfl, rfl⟩

theorem finalize_cases {size : UInt32} (hfresh : s.Fresh opens databases)
    (h : s.finalize w filename opens databases = some (size, s', databases')) :
    Finalized s databases size s' databases' := by
  cases hopen : s.backingFile with
  | none =>
    rw [finalize, hopen] at h
    cases h
    exact .closed hopen
  | some file =>
    rw [finalize, hopen] at h
    obtain ⟨⟨t, databases₂⟩, hsync, ht⟩ := Option.bind_eq_some_iff.mp h
    obtain ⟨last, hlast, heq⟩ := Option.map_eq_some_iff.mp ht
    cases heq
    by_cases hkeeps : s.Keeps ((file ++ s.buffered).length + 1)
    · exact finalize_kept hopen hkeeps hsync hlast
    · exact finalize_rotated hfresh hopen hkeeps hsync hlast

end DbFileSinkBackend

end Deeplog.Sink

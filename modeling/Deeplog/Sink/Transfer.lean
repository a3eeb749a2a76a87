import Deeplog.Sink.DbFileSink

/-!
# Sinks that change places

The sinks of a program are made, written to, and moved and swapped with each other. Wherever a
file goes, the members that describe it have to go with it. `swap` forgets two of them and the move
assignment one: the sinks keep describing their files where those have been equal before.
-/

namespace Deeplog.Sink

open Cbor (Bytes)
open Database (FileSinkId OpenOutcome entry newRotation)

/-- The sinks of a program, each in a place of its own, and what they share. -/
structure World where
  epoch : Epoch
  databases : Databases
  sinks : Nat → Option DbFileSinkBackend

namespace World

open DbFileSinkBackend (Config)

/-- The sink at a place, with the epoch that it finds in the `log_clock`. -/
def sinkAt (world : World) (place : Nat) : Option DbFileSinkBackend :=
  (world.sinks place).map fun s => { s with epoch := world.epoch }

def put (world : World) (place : Nat) (s : DbFileSinkBackend) : World :=
  { world with sinks := Function.update world.sinks place (some s) }

/-- What happens to the sinks of a program. -/
inductive Op where
  | make (place : Nat) (config : Config) (opens : List OpenOutcome)
  | record (place : Nat) (bs : Bytes)
  | syncOutput (place : Nat) (opens : List OpenOutcome)
  | setEpoch (epoch : Epoch)
  | moveConstruct (target source : Nat)
  | moveAssign (target source : Nat) (opens : List OpenOutcome)
  | swap (lhs rhs : Nat)

variable (w : Writer) (filename : String → FileSinkId → UInt32 → Bytes) (residue : String → String)
  (rotationFirst : Bool)

/-- A step that succeeds. New sinks need a free place, and no sink is assigned to itself. -/
def step : Op → World → Option World
  | .make place config opens, world =>
    if world.sinks place = none then
      (DbFileSinkBackend.make w filename opens config world.epoch world.databases).map
        fun (s, databases) => { world with databases }.put place s
    else none
  | .record place bs, world =>
    (world.sinkAt place).map fun s => world.put place (s.base (Backend.put w bs))
  | .syncOutput place opens, world =>
    (world.sinkAt place).bind fun s =>
      (DbFileSinkBackend.syncOutput w filename opens Backend.maxDepth (s, world.databases)).map
        fun (s, databases) => { world with databases }.put place s
  | .setEpoch epoch, world => some { world with epoch }
  | .moveConstruct target source, world =>
    if world.sinks target = none then
      (world.sinkAt source).map fun other =>
        let moved := other.moveConstruct residue
        (world.put target moved.1).put source moved.2
    else none
  | .moveAssign target source opens, world =>
    if target = source then none
    else
      (world.sinkAt target).bind fun s => (world.sinkAt source).bind fun other =>
        (s.moveAssign w filename opens residue rotationFirst other world.databases).map
          fun (assigned, moved, databases) =>
            ({ world with databases }.put target assigned).put source moved
  | .swap lhs rhs, world =>
    (world.sinkAt lhs).bind fun l => (world.sinkAt rhs).map fun r =>
      (world.put lhs (l.swapped r)).put rhs (r.swapped l)

end World

namespace DbFileSinkBackend

/-- The header that the members of a sink stand for. -/
def ownHeader (s : DbFileSinkBackend) : Bytes := Backend.header s.fileEpoch s.containerInfo

/-- The members describe the file: its header has their epoch and attributes, and under their sink
and rotation the database has an entry with its name. -/
structure Describes (s : DbFileSinkBackend) (databases : Databases) (file : Bytes) : Prop where
  header : s.ownHeader <+: file
  entry : ∃ db, s.fileDatabase = some db ∧ ∃ rcm ∈ entry (databases db) s.key, rcm.path = s.fileName

/-- `mFileEpoch` behind `finalize`, which may have rotated the file once more. -/
def finalEpoch (s : DbFileSinkBackend) : Epoch :=
  match s.content with
  | some bytes => if s.Keeps (bytes.length + 1) then s.fileEpoch else s.epoch
  | none => s.fileEpoch

end DbFileSinkBackend

namespace World

/-- The condition on a step: a swap is between sinks of equal epoch and attributes, and a file is
only assigned to a sink of its epoch. -/
def Transfers : Op → World → Prop
  | .make _ config opens, world => (config.start world.epoch).Fresh opens world.databases
  | .syncOutput place opens, world => ∀ s ∈ world.sinkAt place, s.Fresh opens world.databases
  | .moveAssign target source opens, world =>
    ∀ s ∈ world.sinkAt target, ∀ other ∈ world.sinkAt source,
      s.Fresh opens world.databases ∧
        (other.backingFile ≠ none → s.finalEpoch = other.fileEpoch)
  | .swap lhs rhs, world =>
    ∀ l ∈ world.sinkAt lhs, ∀ r ∈ world.sinkAt rhs,
      l.backingFile ≠ none ∨ r.backingFile ≠ none → l.ownHeader = r.ownHeader
  | _, _ => True

instance : ∀ (op : Op) (world : World), Decidable (Transfers op world)
  | .make _ config opens, world =>
    inferInstanceAs (Decidable ((config.start world.epoch).Fresh opens world.databases))
  | .record .., _ | .setEpoch _, _ | .moveConstruct .., _ => inferInstanceAs (Decidable True)
  | .syncOutput place opens, world =>
    inferInstanceAs (Decidable (∀ s ∈ world.sinkAt place, s.Fresh opens world.databases))
  | .moveAssign target source opens, world =>
    inferInstanceAs (Decidable (∀ s ∈ world.sinkAt target, ∀ other ∈ world.sinkAt source,
      s.Fresh opens world.databases ∧
        (other.backingFile ≠ none → s.finalEpoch = other.fileEpoch)))
  | .swap lhs rhs, world =>
    inferInstanceAs (Decidable (∀ l ∈ world.sinkAt lhs, ∀ r ∈ world.sinkAt rhs,
      l.backingFile ≠ none ∨ r.backingFile ≠ none → l.ownHeader = r.ownHeader))

/-- Every sink describes its file. -/
def Described (world : World) : Prop :=
  ∀ place s file, world.sinks place = some s → s.backingFile = some file →
    s.Describes world.databases file

end World

/-! ## What keeps a sink describing its file -/

namespace Backend

/-- A write only ever appends to the file. -/
theorem put_appends (w : Writer) (bs : Bytes) (s : Backend) :
    ∃ more, (s.put w bs).backingFile = s.backingFile.map (· ++ more) := by
  have hcall : ∀ (c : Call) (s : Backend),
      ∃ more, (s.call c).backingFile = s.backingFile.map (· ++ more) := by
    intro c s
    cases c with
    | store bs => exact ⟨[], by simp [call]⟩
    | grow requestedSize =>
      refine ⟨s.buffered, ?_⟩
      simp only [call, doGrow]
      split_ifs <;> simp_all [writeFile]
    | bulkWrite bs =>
      simp only [call, doBulkWrite]
      split_ifs
      · exact ⟨s.buffered, rfl⟩
      · exact ⟨s.buffered ++ bs, rfl⟩
  have hcalls : ∀ (cs : List Call) (s : Backend),
      ∃ more, (cs.foldl call s).backingFile = s.backingFile.map (· ++ more) := by
    intro cs
    induction cs with
    | nil => exact fun s => ⟨[], by simp⟩
    | cons c cs ih =>
      intro s
      obtain ⟨first, hfirst⟩ := hcall c s
      obtain ⟨second, hsecond⟩ := ih (s.call c)
      refine ⟨first ++ second, ?_⟩
      rw [List.foldl_cons, hsecond, hfirst, Option.map_map]
      simp [Function.comp_def]
  exact hcalls _ s

end Backend

namespace DbFileSinkBackend

variable {w : Writer} {filename : String → FileSinkId → UInt32 → Bytes} {residue : String → String}
  {opens : List OpenOutcome} {s s' other : DbFileSinkBackend} {databases databases' : Databases}

/-- A sink describes its file, and the file can be rotated. -/
structure Ok (s : DbFileSinkBackend) (databases : Databases) : Prop where
  describes : ∀ file, s.backingFile = some file → s.Describes databases file
  rotates : s.backingFile ≠ none →
    s.fileNamePattern.isEmpty = false ∧ s.currentRotation ≠ 0

theorem Ok.of_closed (h : s.backingFile = none) (databases : Databases) : s.Ok databases where
  describes file hfile := by
    rw [h] at hfile
    cases hfile
  rotates hopen := absurd h hopen

theorem Ok.grown (h : s.Ok databases) (hgrown : Extends databases databases') :
    s.Ok databases' where
  describes file hfile := by
    obtain ⟨hheader, db, hdb, rcm, hrcm, hpath⟩ := h.describes file hfile
    obtain ⟨size, hsize⟩ := hgrown db s.key rcm hrcm
    exact ⟨hheader, db, hdb, _, hsize, hpath⟩
  rotates := h.rotates

/-- Where nothing but the file and the buffer changes, and nothing is taken from the file. -/
theorem Ok.appended (h : s.Ok databases) {b : Backend} {more : Bytes}
    (hfile : b.backingFile = s.backingFile.map (· ++ more)) (hcore : b.core = s.core) :
    ({ s with toBackend := b } : DbFileSinkBackend).Ok databases := by
  obtain ⟨hinfo, -, hfileEpoch, hpattern, hrotation, -, -⟩ := Backend.core_inj hcore
  refine ⟨fun file hopen => ?_, fun hopen => ?_⟩
  · obtain ⟨old, hold, rfl⟩ := Option.map_eq_some_iff.mp (hfile.symm.trans hopen)
    obtain ⟨hheader, db, hdb, rcm, hrcm, hpath⟩ := h.describes old hold
    refine ⟨?_, db, hdb, rcm, ?_, hpath⟩
    · rw [ownHeader, hfileEpoch, hinfo]
      exact hheader.trans (List.prefix_append old more)
    · rw [key, hrotation]
      exact hrcm
  · rw [hpattern, hrotation]
    refine h.rotates fun hnone => hopen ?_
    rw [hfile, hnone, Option.map_none]

theorem Ok.put (h : s.Ok databases) (bs : Bytes) : (s.base (Backend.put w bs)).Ok databases := by
  obtain ⟨more, hmore⟩ := Backend.put_appends w bs s.toBackend
  exact h.appended hmore (Backend.put_wrote w bs s.toBackend).core_eq

theorem Ok.flush (h : s.Ok databases) : (s.base Backend.flush).Ok databases := by
  obtain ⟨hfile, -, hcore⟩ := Backend.flush_content s.toBackend
  exact h.appended hfile hcore

/-- A new file is described as it is created. -/
theorem Opened.ok (h : Opened s databases s' databases') : s'.Ok databases' := by
  obtain ⟨db, hdb, -, hadded⟩ := h.added
  refine ⟨fun file hfile => ⟨?_, db, h.members.1.trans hdb, _, hadded, rfl⟩, fun _ => ?_⟩
  · cases h.file.symm.trans hfile
    have hown : ownHeader s' = Backend.header s.epoch s.containerInfo := by
      rw [ownHeader, h.fileEpoch, h.containerInfo]
    exact hown ▸ List.prefix_rfl
  · exact ⟨by rw [h.members.2.2, h.pattern_ne], rotation_ne_of_key h.rotation_ne⟩

theorem Rotated.ok {bytes : Bytes} (hpattern : s.fileNamePattern.isEmpty = false)
    (h : Rotated s databases bytes (Backend.header s.epoch s.containerInfo) s' databases') :
    s'.Ok databases' := by
  obtain ⟨db, hdb, -, hadded⟩ := h.added
  refine ⟨fun file hfile => ⟨?_, db, h.members.1.trans hdb, _, hadded, rfl⟩, fun _ => ?_⟩
  · cases h.backend.file.symm.trans hfile
    have hown : ownHeader s' = Backend.header s.epoch s.containerInfo := by
      rw [ownHeader, h.backend.fileEpoch, h.backend.containerInfo]
    exact hown ▸ List.prefix_rfl
  · exact ⟨by rw [h.members.2.2.1, hpattern], rotation_ne_of_key h.rotation_ne⟩

theorem Ok.syncOutput (h : s.Ok databases) (hfresh : s.Fresh opens databases)
    (hs : syncOutput w filename opens Backend.maxDepth (s, databases) = some (s', databases')) :
    s'.Ok databases' ∧ Extends databases databases' := by
  cases syncOutput_cases hfresh hs with
  | closed | kept => exact ⟨h.flush, .refl _⟩
  | opened hfile hopened => exact ⟨hopened.ok, hopened.grown⟩
  | rotated hfile hkeeps hrotated =>
    have hopen : s.backingFile ≠ none := by rw [hfile]; exact Option.some_ne_none _
    exact ⟨hrotated.ok (h.rotates hopen).1, hrotated.grown⟩

/-- The last `sync_output` of a sink may rotate its file. -/
theorem Finalized.epoch {size : UInt32} (h : Finalized s databases size s' databases') :
    s'.fileEpoch = s.finalEpoch ∧ Extends databases databases' := by
  cases h with
  | closed hfile =>
    rw [finalEpoch, Backend.content, hfile, Option.map_none]
    exact ⟨rfl, .refl _⟩
  | kept hc hkeeps _ _ hepoch _ =>
    simp only [finalEpoch, hc]
    rw [if_pos hkeeps]
    exact ⟨hepoch, .refl _⟩
  | rotated hc hkeeps hrotated _ _ hepoch _ =>
    simp only [finalEpoch, hc]
    rw [if_neg hkeeps]
    exact ⟨hepoch.trans hrotated.backend.fileEpoch, hrotated.grown⟩

theorem Ok.moveConstruct (residue : String → String) (h : s.Ok databases) :
    (s.moveConstruct residue).1.Ok databases ∧ (s.moveConstruct residue).2.Ok databases :=
  ⟨⟨fun file hfile => ⟨(h.describes file hfile).header, (h.describes file hfile).entry⟩, h.rotates⟩,
    .of_closed rfl _⟩

/-- All members but one are assigned. -/
theorem Ok.assign (h : other.Ok databases)
    (hepoch : other.backingFile ≠ none → s.fileEpoch = other.fileEpoch) :
    (s.assign residue other).1.Ok databases ∧ (s.assign residue other).2.Ok databases := by
  refine ⟨⟨fun file hfile => ⟨?_, (h.describes file hfile).entry⟩, h.rotates⟩, .of_closed rfl _⟩
  have hopen : other.backingFile ≠ none := fun hnone => by
    cases hnone.symm.trans hfile
  have hheader : (s.assign residue other).1.ownHeader = other.ownHeader := by
    simp only [ownHeader, DbFileSinkBackend.assign, hepoch hopen]
  rw [hheader]
  exact (h.describes file hfile).header

theorem Ok.moveAssign {rotationFirst : Bool} {assigned moved : DbFileSinkBackend}
    (h : other.Ok databases) (hfresh : s.Fresh opens databases)
    (hepoch : other.backingFile ≠ none → s.finalEpoch = other.fileEpoch)
    (hs : s.moveAssign w filename opens residue rotationFirst other databases =
      some (assigned, moved, databases')) :
    assigned.Ok databases' ∧ moved.Ok databases' ∧ Extends databases databases' := by
  obtain ⟨⟨size, finalized, databases₂⟩, hfinalize, hs⟩ := Option.bind_eq_some_iff.mp hs
  obtain ⟨databases₃, hupdate, heq⟩ := Option.map_eq_some_iff.mp hs
  cases heq
  obtain ⟨hfinal, hgrown⟩ := (finalize_cases hfresh hfinalize).epoch
  have hextends := hgrown.trans (updateRecordContainerSize_extends hupdate)
  obtain ⟨hassigned, hmoved⟩ := (h.grown hextends).assign (s := finalized)
    fun hopen => hfinal.trans (hepoch hopen)
  exact ⟨hassigned, hmoved, hextends⟩

/-- All members but two are swapped. -/
theorem Ok.swapped (h : other.Ok databases)
    (hheader : other.backingFile ≠ none → s.ownHeader = other.ownHeader) :
    (s.swapped other).Ok databases := by
  refine ⟨fun file hfile => ⟨?_, (h.describes file hfile).entry⟩, h.rotates⟩
  have hopen : other.backingFile ≠ none := fun hnone => by
    cases hnone.symm.trans hfile
  change s.ownHeader <+: file
  rw [hheader hopen]
  exact (h.describes file hfile).header

end DbFileSinkBackend

namespace World

variable {w : Writer} {filename : String → FileSinkId → UInt32 → Bytes} {residue : String → String}
  {rotationFirst : Bool} {world world' : World} {databases : Databases} {s : DbFileSinkBackend}
  {place : Nat} {op : Op} {ops : List Op}

/-- The invariant. -/
def Ok (world : World) : Prop :=
  ∀ place s, world.sinks place = some s → s.Ok world.databases

theorem Ok.described (h : world.Ok) : world.Described :=
  fun place s file hs => (h place s hs).describes file

theorem Ok.sinkAt (h : world.Ok) (hs : world.sinkAt place = some s) : s.Ok world.databases := by
  obtain ⟨stored, hstored, rfl⟩ := Option.map_eq_some_iff.mp hs
  have hok := h place stored hstored
  exact ⟨fun file hfile => ⟨(hok.describes file hfile).header, (hok.describes file hfile).entry⟩,
    hok.rotates⟩

theorem Ok.put (h : world.Ok) (hgrown : Extends world.databases databases)
    (hs : s.Ok databases) : ({ world with databases }.put place s).Ok := by
  intro other t ht
  simp only [World.put, Function.update_apply] at ht
  split_ifs at ht with hplace
  · cases ht
    exact hs
  · exact (h other t ht).grown hgrown

theorem Ok.step (h : world.Ok) (hcond : Transfers op world)
    (hstep : step w filename residue rotationFirst op world = some world') : world'.Ok := by
  cases op with
  | make place config opens =>
    rw [World.step] at hstep
    split_ifs at hstep
    obtain ⟨⟨s, databases⟩, hmake, rfl⟩ := Option.map_eq_some_iff.mp hstep
    rcases DbFileSinkBackend.rotate_closed rfl hcond hmake with ⟨rfl, rfl⟩ | hopened
    · exact h.put (.refl _) (.of_closed rfl _)
    · exact h.put hopened.grown hopened.ok
  | record place bs =>
    obtain ⟨s, hs, rfl⟩ := Option.map_eq_some_iff.mp hstep
    exact h.put (.refl _) ((h.sinkAt hs).put bs)
  | syncOutput place opens =>
    obtain ⟨s, hs, hstep⟩ := Option.bind_eq_some_iff.mp hstep
    obtain ⟨⟨t, databases⟩, hsync, rfl⟩ := Option.map_eq_some_iff.mp hstep
    obtain ⟨ht, hgrown⟩ := (h.sinkAt hs).syncOutput (hcond s hs) hsync
    exact h.put hgrown ht
  | setEpoch epoch =>
    cases hstep
    exact h
  | moveConstruct target source =>
    rw [World.step] at hstep
    split_ifs at hstep
    obtain ⟨other, hother, rfl⟩ := Option.map_eq_some_iff.mp hstep
    obtain ⟨hmade, hmoved⟩ := (h.sinkAt hother).moveConstruct residue
    exact (h.put (.refl _) hmade).put (.refl _) hmoved
  | moveAssign target source opens =>
    rw [World.step] at hstep
    split_ifs at hstep
    obtain ⟨s, hs, hstep⟩ := Option.bind_eq_some_iff.mp hstep
    obtain ⟨other, hother, hstep⟩ := Option.bind_eq_some_iff.mp hstep
    obtain ⟨⟨assigned, moved, databases⟩, hassign, rfl⟩ := Option.map_eq_some_iff.mp hstep
    obtain ⟨hfresh, hepoch⟩ := hcond s hs other hother
    obtain ⟨hassigned, hmoved, hgrown⟩ := (h.sinkAt hother).moveAssign hfresh hepoch hassign
    exact (h.put hgrown hassigned).put (.refl _) hmoved
  | swap lhs rhs =>
    obtain ⟨l, hl, hstep⟩ := Option.bind_eq_some_iff.mp hstep
    obtain ⟨r, hr, rfl⟩ := Option.map_eq_some_iff.mp hstep
    have hheader := hcond l hl r hr
    have hlhs := (h.sinkAt hr).swapped (s := l) fun hopen => hheader (.inr hopen)
    have hrhs := (h.sinkAt hl).swapped (s := r) fun hopen => (hheader (.inl hopen)).symm
    exact (h.put (.refl _) hlhs).put (.refl _) hrhs

/-- What the next `sync_output` makes of a file: it rotates the file exactly if it is too large or
the epoch is not the one in its header, and the new file has the same attributes. -/
def SyncsRightly (w : Writer) (filename : String → FileSinkId → UInt32 → Bytes) (world : World) :
    Prop :=
  ∀ place s file opens s' databases', world.sinkAt place = some s → s.backingFile = some file →
    s.Fresh opens world.databases →
    DbFileSinkBackend.syncOutput w filename opens Backend.maxDepth (s, world.databases) =
      some (s', databases') →
    if (file ++ s.buffered).length ≤ s.maxFileSize ∧ world.epoch = s.fileEpoch then
      s'.backingFile = some (file ++ s.buffered) ∧ s'.closed = s.closed
    else
      s'.backingFile = some (Backend.header world.epoch s.containerInfo) ∧
        s'.closed = s.closed ++ [(s.currentRotation, file ++ s.buffered ++ [0xff])]

theorem Ok.syncsRightly (h : world.Ok) : world.SyncsRightly w filename := by
  intro place s file opens s' databases' hs hfile hfresh hsync
  have hc := DbFileSinkBackend.content_of_open hfile
  have hopen : s.backingFile ≠ none := by rw [hfile]; exact Option.some_ne_none file
  obtain ⟨hpattern, hrotation⟩ := (h.sinkAt hs).rotates hopen
  have hepoch : s.epoch = world.epoch := by
    obtain ⟨stored, -, rfl⟩ := Option.map_eq_some_iff.mp hs
    rfl
  have hkeeps : s.Keeps (file ++ s.buffered).length ↔
      (file ++ s.buffered).length ≤ s.maxFileSize ∧ world.epoch = s.fileEpoch := by
    simp [Backend.Keeps, hpattern, hrotation, hepoch]
  split_ifs with hstays
  · rw [Backend.maxDepth, DbFileSinkBackend.syncOutput_keeps hc (hkeeps.mpr hstays)] at hsync
    cases hsync
    obtain ⟨hflushed, -, hcore⟩ := Backend.flush_content s.toBackend
    obtain ⟨-, -, -, -, -, -, hclosed⟩ := Backend.core_inj hcore
    exact ⟨hflushed.trans hc, hclosed⟩
  · have hrotated := DbFileSinkBackend.syncOutput_rotates hc (mt hkeeps.mp hstays) hfresh hsync
    rw [← hepoch]
    exact ⟨hrotated.backend.file, hrotated.backend.closed⟩

/-- Sinks that are only swapped and assigned where what is forgotten has been equal describe their
files, and their files are rotated as they should be. -/
theorem sinks_described (w : Writer) (filename : String → FileSinkId → UInt32 → Bytes)
    (residue : String → String) (rotationFirst : Bool) {ops : List Op} {world world' : World}
    (hempty : ∀ place, world.sinks place = none)
    (hcond : Runs.Along (step w filename residue rotationFirst) Transfers ops world)
    (hrun : Runs.run (step w filename residue rotationFirst) ops world = some world') :
    world'.Described ∧ world'.SyncsRightly w filename := by
  have hok : world.Ok := fun place s hs => by
    rw [hempty place] at hs
    cases hs
  have hok' : world'.Ok :=
    Runs.invariant (fun _ _ _ hcond hok hstep => hok.step hcond hstep) hcond hok hrun
  exact ⟨hok'.described, hok'.syncsRightly⟩

/-- A program that has no sinks yet, and databases without entries. -/
def fresh : World := ⟨⟨5, 7⟩, fun _ => {}, fun _ => none⟩

/-- Files with short names. -/
def shortFile (_ : String) (sinkId : FileSinkId) (rotation : UInt32) : Bytes :=
  [sinkId.toUInt8, rotation.toUInt8]

def makeSink (place : Nat) (sinkId : FileSinkId) (attributes : Bytes) : Op :=
  .make place ⟨64, 0, "log", 16, sinkId, attributes⟩ [.opened]

/-- Sinks without attributes that are moved, assigned and swapped, and rotated for the epoch. -/
def movedSinks : List Op :=
  [makeSink 0 20 [], makeSink 1 21 [], .record 0 [0x01], .swap 0 1, .moveConstruct 2 0,
    .setEpoch ⟨6, 7⟩, .record 1 [0x02], .syncOutput 1 [.opened],
    .syncOutput 2 [.opened], .moveAssign 1 2 []]

theorem sinks_described_sample : ∃ world',
    Runs.run (step Backend.plainWriter shortFile id false) movedSinks fresh = some world' ∧
      world'.Described ∧ world'.SyncsRightly Backend.plainWriter shortFile := by
  have hsome : (Runs.run (step Backend.plainWriter shortFile id false) movedSinks fresh).isSome =
      true := by decide +kernel
  obtain ⟨world', hrun⟩ := Option.isSome_iff_exists.mp hsome
  have hcond : Runs.Along (step Backend.plainWriter shortFile id false) Transfers movedSinks
      fresh := by decide +kernel
  exact ⟨world', hrun, sinks_described Backend.plainWriter shortFile id false (fun _ => rfl) hcond
    hrun⟩

/-- Two sinks with different attributes that are swapped. -/
theorem sinks_not_described :
    ¬∀ (w : Writer) (filename : String → FileSinkId → UInt32 → Bytes) (residue : String → String)
      (rotationFirst : Bool) (ops : List Op) (world world' : World),
      (∀ place, world.sinks place = none) →
      Runs.run (step w filename residue rotationFirst) ops world = some world' →
      world'.Described := by
  intro h
  let ops : List Op := [makeSink 0 20 [], makeSink 1 21 [0xa1, 0x01, 0x02], .swap 0 1]
  have hwrong : (Runs.run (step Backend.plainWriter shortFile id false) ops fresh).any
      (fun world' => (world'.sinks 0).any fun s => s.backingFile.any fun file =>
        ¬s.ownHeader <+: file) = true := by decide +kernel
  obtain ⟨world', hrun, hwrong⟩ := (Option.any_eq_true _ _).mp hwrong
  obtain ⟨s, hs, hwrong⟩ := (Option.any_eq_true _ _).mp hwrong
  obtain ⟨file, hfile, hwrong⟩ := (Option.any_eq_true _ _).mp hwrong
  have hdescribed := h _ _ _ _ ops fresh world' (fun _ => rfl) hrun
  exact of_decide_eq_true hwrong (hdescribed 0 s file hs hfile).header

end World

end Deeplog.Sink

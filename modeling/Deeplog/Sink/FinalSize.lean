import Deeplog.Sink.Transfer

/-!
# The sizes of closed containers

A container is closed when its sink rotates, and when the sink ends in one of several ways. Each of
them gets to know the length of the file as 32 bits, and the database is to be told. Lengths from
`2 ^ 32` on are cut off, `try_finalize` drops the length, and a sink that rotates once more in its
`finalize` closes two containers.
-/

namespace Deeplog.Sink

open Cbor (Bytes)
open Database (RecordContainerMeta FileSinkId OpenOutcome entry newRotation)

namespace DbFileSinkBackend

section Definitions

variable (w : Writer) (filename : String → FileSinkId → UInt32 → Bytes) (opens : List OpenOutcome)
  (residue : String → String)

/-- `~db_file_sink_backend`, which takes 0 for a sink without a file. -/
def destroy (s : DbFileSinkBackend) (databases : Databases) :
    Option (DbFileSinkBackend × Databases) :=
  (s.finalize w filename opens databases).map fun (size, s, databases) =>
    (s, if size ≠ 0 then
      (s.updateRecordContainerSize (.ofNat s.currentRotation) size databases).getD databases
    else databases)

/-- `basic_sink_frontend::do_finalize`, to which `try_finalize` comes down. -/
def doFinalize (s : DbFileSinkBackend) (databases : Databases) :
    Option (DbFileSinkBackend × Databases) :=
  (s.finalize w filename opens databases).map fun (_, s, databases) => (s, databases)

/-- `log_fabric_base::destroy_sink`, for a sink that it owns. -/
def destroySink (s : DbFileSinkBackend) (databases : Databases) :
    Option (DbFileSinkBackend × Databases) :=
  (s.doFinalize w filename opens databases).bind fun (s, databases) =>
    s.destroy w filename opens databases

/-- The ways to close the container of a sink. -/
inductive Closing where
  | rotation
  | tryFinalize
  | destroySink
  | destruction
  | moveAssignment (rotationFirst : Bool) (other : DbFileSinkBackend)

def close (s : DbFileSinkBackend) (databases : Databases) :
    Closing → Option (DbFileSinkBackend × Databases)
  | .rotation => syncOutput w filename opens Backend.maxDepth (s, databases)
  | .tryFinalize => s.doFinalize w filename opens databases
  | .destroySink => s.destroySink w filename opens databases
  | .destruction => s.destroy w filename opens databases
  | .moveAssignment rotationFirst other =>
    (s.moveAssign w filename opens residue rotationFirst other databases).map
      fun (assigned, _, databases) => (assigned, databases)

end Definitions

/-- Each container that has been closed on the way to `s'` has its length in its entry, up to the
limit of `sanitize_container_byte_size`. -/
def SizesReported (s s' : DbFileSinkBackend) (databases : Databases) : Prop :=
  ∀ container ∈ s'.closed.drop s.closed.length, ∃ db, s.fileDatabase = some db ∧
    ∃ rcm ∈ entry (databases db) (s.sinkId, .ofNat container.1),
      rcm.byteSize.toNat = min container.2.length (2 ^ 32 - 1)

/-- Lengths that are the same when they are cut off and when they are limited. -/
def Survives (length : Nat) : Prop := length < 2 ^ 32 ∨ length % 2 ^ 32 = 2 ^ 32 - 1

/-- The lengths with which a sink ends. -/
def FinalSurvives (s : DbFileSinkBackend) : Prop :=
  ∀ bytes ∈ s.content, if s.Keeps (bytes.length + 1) then Survives (bytes.length + 1)
    else Survives (bytes.length + 2) ∧
      Survives (Backend.header s.epoch s.containerInfo).length

/-- The condition under which a sink reports its sizes: none is lost in `try_finalize`, all of them
survive, and the rotation is read after `finalize` if that changes it. -/
def Closing.Reports (s : DbFileSinkBackend) : Closing → Prop
  | .rotation => ∀ bytes ∈ s.content, s.Keeps bytes.length ∨ Survives (bytes.length + 1)
  | .tryFinalize | .destroySink => s.content = none
  | .destruction => s.FinalSurvives
  | .moveAssignment rotationFirst _ => s.FinalSurvives ∧
    (rotationFirst = true → ∀ bytes ∈ s.content, s.Keeps (bytes.length + 1))

theorem survives_iff (length : Nat) :
    (UInt32.ofNat length).toNat = min length (2 ^ 32 - 1) ↔ Survives length := by
  rw [UInt32.toNat_ofNat', Survives]
  omega

variable {w : Writer} {filename : String → FileSinkId → UInt32 → Bytes} {residue : String → String}
  {opens : List OpenOutcome} {s s' other : DbFileSinkBackend} {databases databases' : Databases}

/-- The file of a sink has an entry, in which no size has been entered yet. A sink without a file
has no key that an entry could have. -/
structure Registered (s : DbFileSinkBackend) (databases : Databases) : Prop where
  entry : s.backingFile ≠ none → s.key.2 ≠ 0 ∧ ∃ db, s.fileDatabase = some db ∧
    ∃ rcm, entry (databases db) s.key = some rcm ∧ rcm.byteSize = 0
  idle : s.backingFile = none → s.fileDatabase = none ∨ s.key.2 = 0

/-! ## One closing -/

theorem sizesReported_none (hlog : s'.closed = s.closed) : s.SizesReported s' databases := by
  intro container hmem
  rw [hlog, List.drop_length] at hmem
  cases hmem

theorem sizesReported_one {db rotation : Nat} {file : Bytes} {rcm : RecordContainerMeta}
    (hdb : s.fileDatabase = some db) (hlog : s'.closed = s.closed ++ [(rotation, file)])
    (hrcm : entry (databases db) (s.sinkId, .ofNat rotation) = some rcm) :
    s.SizesReported s' databases ↔ rcm.byteSize.toNat = min file.length (2 ^ 32 - 1) := by
  simp [SizesReported, hlog, hdb, hrcm]

theorem sizesReported_two {db first second : Nat} {file last : Bytes}
    {rcm rcm' : RecordContainerMeta} (hdb : s.fileDatabase = some db)
    (hlog : s'.closed = s.closed ++ [(first, file)] ++ [(second, last)])
    (hrcm : entry (databases db) (s.sinkId, .ofNat first) = some rcm)
    (hrcm' : entry (databases db) (s.sinkId, .ofNat second) = some rcm') :
    s.SizesReported s' databases ↔ rcm.byteSize.toNat = min file.length (2 ^ 32 - 1) ∧
      rcm'.byteSize.toNat = min last.length (2 ^ 32 - 1) := by
  simp [SizesReported, hlog, hdb, hrcm, hrcm']

/-- What is known of a registered sink with a file. -/
theorem Registered.of_content (h : s.Registered databases) {bytes : Bytes}
    (hc : s.content = some bytes) :
    s.key.2 ≠ 0 ∧ ∃ db, s.fileDatabase = some db ∧
      ∃ rcm, Database.entry (databases db) s.key = some rcm ∧ rcm.byteSize = 0 := by
  apply h.entry
  intro hnone
  rw [Backend.content, hnone] at hc
  cases hc

/-- An entry without size is wrong. -/
theorem zero_ne_limited {file : Bytes} (h : file ≠ []) :
    ¬(0 : UInt32).toNat = min file.length (2 ^ 32 - 1) := by
  have hpos := List.length_pos_of_ne_nil h
  rw [UInt32.toNat_zero]
  omega

theorem limited_iff {file : Bytes} {length : Nat} (h : file.length = length) :
    (UInt32.ofNat length).toNat = min file.length (2 ^ 32 - 1) ↔ Survives length := by
  rw [h]
  exact survives_iff length

theorem rotation_reported_iff (h : s.Registered databases) (hfresh : s.Fresh opens databases)
    (hs : syncOutput w filename opens Backend.maxDepth (s, databases) = some (s', databases')) :
    s.SizesReported s' databases' ↔ Closing.rotation.Reports s := by
  obtain ⟨-, -, hcore⟩ := Backend.flush_content s.toBackend
  obtain ⟨-, -, -, -, -, -, hclosed⟩ := Backend.core_inj hcore
  have hnothing : s.backingFile = none → Closing.rotation.Reports s := by
    intro hfile bytes hbytes
    rw [closed_content hfile] at hbytes
    cases hbytes
  have hreports : ∀ file, s.backingFile = some file → (Closing.rotation.Reports s ↔
      s.Keeps (file ++ s.buffered).length ∨ Survives ((file ++ s.buffered).length + 1)) := by
    intro file hfile
    simp only [Closing.Reports, content_of_open hfile, Option.mem_some_iff, forall_eq']
  cases syncOutput_cases hfresh hs with
  | closed hfile => exact iff_of_true (sizesReported_none hclosed) (hnothing hfile)
  | opened hfile hopened =>
    exact iff_of_true (sizesReported_none (hopened.log.trans hclosed)) (hnothing hfile)
  | kept hfile hkeeps =>
    exact iff_of_true (sizesReported_none hclosed) ((hreports _ hfile).mpr (.inl hkeeps))
  | rotated hfile hkeeps hrotated =>
    obtain ⟨-, db, hdb, rcm, hrcm, -⟩ := h.of_content (content_of_open hfile)
    have hresized := (hrotated.reported db hdb rcm hrcm).2
    rw [sizesReported_one hdb hrotated.backend.closed hresized, hreports _ hfile,
      or_iff_right hkeeps]
    exact limited_iff List.length_append

/-- Where `try_finalize` closes a container, its size is 0 to the end. -/
theorem dropped_reported_iff {size : UInt32} (h : s.Registered databases)
    (hs : Finalized s databases size s' databases') :
    s.SizesReported s' databases' ↔ s.content = none := by
  cases hs with
  | closed hfile => exact iff_of_true (sizesReported_none rfl) (closed_content hfile)
  | kept hc hkeeps hfile hlog hepoch hmembers =>
    obtain ⟨-, db, hdb, rcm, hrcm, hzero⟩ := h.of_content hc
    rw [sizesReported_one hdb hlog hrcm, hzero, hc]
    exact iff_of_false (zero_ne_limited (by simp)) (Option.some_ne_none _)
  | rotated hc hkeeps hrotated hfile hlog hepoch hmembers =>
    obtain ⟨-, db, hdb, rcm, hrcm, -⟩ := h.of_content hc
    have hresized := (hrotated.reported db hdb rcm hrcm).2
    obtain ⟨db', hdb', -, hadded⟩ := hrotated.added
    cases hdb.symm.trans hdb'
    rw [key, hrotated.members.2.1] at hadded
    rw [hrotated.backend.closed] at hlog
    rw [sizesReported_two hdb hlog hresized hadded, hc]
    exact iff_of_false (fun hboth => zero_ne_limited (Backend.header_ne_nil _ _) hboth.2)
      (Option.some_ne_none _)

/-- What a sink is to have reported in the end, if it reports what `finalize` returns. -/
structure ReportedLast (s f : DbFileSinkBackend) (size : UInt32) (before after : Databases) :
    Prop where
  own : ∀ db, s.fileDatabase = some db → ∀ rcm, Database.entry (before db) f.key = some rcm →
    rcm.byteSize = 0 → Database.entry (after db) f.key = some { rcm with byteSize := size }
  others : ∀ db key, s.fileDatabase = some db → key ≠ f.key →
    Database.entry (after db) key = Database.entry (before db) key

theorem finalSurvives_iff {size : UInt32} {f : DbFileSinkBackend} {after : Databases}
    (h : s.Registered databases) (hs : Finalized s databases size f databases')
    (hlog : s'.closed = f.closed) (hreport : ReportedLast s f size databases' after) :
    s.SizesReported s' after ↔ s.FinalSurvives := by
  cases hs with
  | closed hfile =>
    refine iff_of_true (sizesReported_none hlog) fun bytes hbytes => ?_
    rw [closed_content hfile] at hbytes
    cases hbytes
  | kept hc hkeeps hfile hflog hepoch hmembers =>
    obtain ⟨-, db, hdb, rcm, hrcm, hzero⟩ := h.of_content hc
    have hlast := hreport.own db hdb rcm (by rw [hmembers.2]; exact hrcm) hzero
    rw [hmembers.2] at hlast
    rw [sizesReported_one hdb (hlog.trans hflog) hlast]
    simp only [FinalSurvives, hc, Option.mem_some_iff, forall_eq']
    rw [if_pos hkeeps]
    exact limited_iff List.length_append
  | rotated hc hkeeps hrotated hfile hflog hepoch hmembers =>
    obtain ⟨-, db, hdb, rcm, hrcm, -⟩ := h.of_content hc
    obtain ⟨hne, hresized⟩ := hrotated.reported db hdb rcm hrcm
    obtain ⟨db', hdb', -, hadded⟩ := hrotated.added
    cases hdb.symm.trans hdb'
    have hfirst := hreport.others db s.key hdb (by rw [hmembers.2]; exact hne.symm)
    have hlast := hreport.own db hdb _ (by rw [hmembers.2]; exact hadded) rfl
    rw [hmembers.2, key, hrotated.members.2.1] at hlast
    rw [hrotated.backend.closed] at hflog
    rw [sizesReported_two hdb (hlog.trans hflog) (hfirst.trans hresized) hlast]
    simp only [FinalSurvives, hc, Option.mem_some_iff, forall_eq']
    rw [if_neg hkeeps]
    have hlength : ∀ bytes : Bytes, (bytes ++ [0xff]).length + 1 = bytes.length + 2 :=
      fun bytes => by rw [List.length_append]; rfl
    rw [hlength]
    exact and_congr (limited_iff (List.length_append.trans (hlength _))) (limited_iff rfl)

/-- A finalised sink still has its database. -/
theorem Finalized.fileDatabase {size : UInt32} (hs : Finalized s databases size s' databases') :
    s'.fileDatabase = s.fileDatabase := by
  cases hs with
  | closed => rfl
  | kept _ _ _ _ _ hmembers => exact hmembers.1
  | rotated _ _ hrotated _ _ _ hmembers => exact hmembers.1.trans hrotated.members.1

/-- The destructor leaves the entry of its container with the size that `finalize` has returned,
also if that is 0. -/
theorem destroy_reports {f : DbFileSinkBackend} {size : UInt32} {before : Databases}
    (hdb : f.fileDatabase = s.fileDatabase) :
    ReportedLast s f size before (if size ≠ 0 then
      (f.updateRecordContainerSize (.ofNat f.currentRotation) size before).getD before
    else before) := by
  split_ifs with hsize
  · obtain ⟨-, hown, hothers⟩ := report_spec (.ofNat f.currentRotation) size f before
    exact ⟨fun db hmem rcm hrcm _ => (hown db (hdb.trans hmem)).2 rcm hrcm,
      fun db key _ hne => hothers db key (.inr hne)⟩
  · rw [not_not] at hsize
    subst hsize
    refine ⟨fun db _ rcm hrcm hzero => ?_, fun _ _ _ _ => rfl⟩
    rw [hrcm, ← hzero]

theorem destruction_reported_iff (h : s.Registered databases) (hfresh : s.Fresh opens databases)
    (hs : s.destroy w filename opens databases = some (s', databases')) :
    s.SizesReported s' databases' ↔ s.FinalSurvives := by
  obtain ⟨⟨size, f, before⟩, hfinalize, heq⟩ := Option.map_eq_some_iff.mp hs
  cases heq
  have hfinalized := finalize_cases hfresh hfinalize
  exact finalSurvives_iff h hfinalized rfl (destroy_reports hfinalized.fileDatabase)

/-- The move assignment reports under the rotation that it has read. -/
theorem update_reports {f : DbFileSinkBackend} {size rotation : UInt32} {before after : Databases}
    (hdb : f.fileDatabase = s.fileDatabase) (hkey : (f.sinkId, rotation) = f.key)
    (hs : f.updateRecordContainerSize rotation size before = some after) :
    ReportedLast s f size before after := by
  refine ⟨fun db hmem rcm hrcm _ => ?_, fun db key hmem hne => ?_⟩
  · obtain ⟨hown, -, -⟩ := updateRecordContainerSize_eq (hdb.trans hmem) hs
    rw [hkey] at hown
    exact hown rcm hrcm
  · obtain ⟨-, -, hothers⟩ := updateRecordContainerSize_eq (hdb.trans hmem) hs
    rw [hkey] at hothers
    exact hothers db key (.inr hne)

/-- The size of a file that the sink has only had in `finalize` is reported for the one before. -/
theorem misreported {f : DbFileSinkBackend} {size : UInt32} {after : Databases}
    (h : s.Registered databases) (hs : Finalized s databases size f databases')
    (hlog : s'.closed = f.closed)
    (hrotated : ¬∀ bytes ∈ s.content, s.Keeps (bytes.length + 1))
    (hupdate : f.updateRecordContainerSize (.ofNat s.currentRotation) size databases' =
      some after) : ¬s.SizesReported s' after := by
  cases hs with
  | closed hfile =>
    refine absurd (fun bytes hbytes => ?_) hrotated
    rw [closed_content hfile] at hbytes
    cases hbytes
  | kept hc hkeeps _ _ _ _ =>
    refine absurd (fun bytes hbytes => ?_) hrotated
    cases hc.symm.trans hbytes
    exact hkeeps
  | rotated hc hkeeps hrotated hfile hflog hepoch hmembers =>
    obtain ⟨-, db, hdb, rcm, hrcm, -⟩ := h.of_content hc
    obtain ⟨hne, hresized⟩ := hrotated.reported db hdb rcm hrcm
    obtain ⟨db', hdb', -, hadded⟩ := hrotated.added
    cases hdb.symm.trans hdb'
    have hfdb : f.fileDatabase = some db := hmembers.1.trans (hrotated.members.1.trans hdb)
    have hfid : f.sinkId = s.sinkId := by
      have hkey := congrArg Prod.fst hmembers.2
      exact hkey.trans hrotated.members.2.1
    obtain ⟨hown, -, hothers⟩ := updateRecordContainerSize_eq hfdb hupdate
    rw [hfid] at hown hothers
    have hfirst := hown _ hresized
    have hlast := (hothers db _ (.inr hne)).trans hadded
    rw [key, hrotated.members.2.1] at hlast
    rw [hrotated.backend.closed] at hflog
    rw [sizesReported_two hdb (hlog.trans hflog) hfirst hlast]
    exact fun hboth => zero_ne_limited (Backend.header_ne_nil _ _) hboth.2

theorem Finalized.backingFile {size : UInt32} (hs : Finalized s databases size s' databases') :
    s'.backingFile = none := by
  cases hs with
  | closed hfile => exact hfile
  | kept _ _ hfile _ _ _ => exact hfile
  | rotated _ _ _ hfile _ _ _ => exact hfile

theorem Finalized.key_of_keeps {size : UInt32} (hs : Finalized s databases size s' databases')
    (hkeeps : ∀ bytes ∈ s.content, s.Keeps (bytes.length + 1)) : s'.key = s.key := by
  cases hs with
  | closed => rfl
  | kept _ _ _ _ _ hmembers => exact hmembers.2
  | rotated hc hnot _ _ _ _ _ => exact absurd (hkeeps _ hc) hnot

theorem moveAssignment_reported_iff {rotationFirst : Bool} {moved : DbFileSinkBackend}
    (h : s.Registered databases) (hfresh : s.Fresh opens databases)
    (hs : s.moveAssign w filename opens residue rotationFirst other databases =
      some (s', moved, databases')) :
    s.SizesReported s' databases' ↔ s.FinalSurvives ∧
      (rotationFirst = true → ∀ bytes ∈ s.content, s.Keeps (bytes.length + 1)) := by
  obtain ⟨⟨size, f, before⟩, hfinalize, hs⟩ := Option.bind_eq_some_iff.mp hs
  obtain ⟨after, hupdate, heq⟩ := Option.map_eq_some_iff.mp hs
  cases heq
  have hfinalized := finalize_cases hfresh hfinalize
  have hlog : (f.assign residue other).1.closed = f.closed := rfl
  by_cases hstays : rotationFirst = true → ∀ bytes ∈ s.content, s.Keeps (bytes.length + 1)
  · rw [and_iff_left hstays]
    refine finalSurvives_iff h hfinalized hlog
      (update_reports hfinalized.fileDatabase ?_ hupdate)
    cases rotationFirst with
    | false => rfl
    | true =>
      have hkey := hfinalized.key_of_keeps (hstays rfl)
      exact Prod.ext rfl (congrArg Prod.snd hkey).symm
  · obtain ⟨rfl, hnot⟩ := Classical.not_imp.mp hstays
    exact iff_of_false (misreported h hfinalized hlog hnot hupdate) fun hboth => hstays hboth.2

/-- Which sizes reach the database, for each way to close a container. -/
theorem close_reported_iff {closing : Closing} (h : s.Registered databases)
    (hfresh : s.Fresh opens databases)
    (hs : s.close w filename opens residue databases closing = some (s', databases')) :
    s.SizesReported s' databases' ↔ closing.Reports s := by
  cases closing with
  | rotation => exact rotation_reported_iff h hfresh hs
  | tryFinalize =>
    obtain ⟨⟨size, f, after⟩, hfinalize, heq⟩ := Option.map_eq_some_iff.mp hs
    cases heq
    exact dropped_reported_iff h (finalize_cases hfresh hfinalize)
  | destroySink =>
    obtain ⟨⟨f, after⟩, hdo, hdestroy⟩ := Option.bind_eq_some_iff.mp hs
    obtain ⟨⟨size, f', after'⟩, hfinalize, heq⟩ := Option.map_eq_some_iff.mp hdo
    cases heq
    have hfinalized := finalize_cases hfresh hfinalize
    -- the destructor finds no file any more
    change (finalize w filename opens f after).map _ = _ at hdestroy
    rw [finalize, hfinalized.backingFile] at hdestroy
    cases hdestroy
    exact dropped_reported_iff h hfinalized
  | destruction => exact destruction_reported_iff h hfresh hs
  | moveAssignment rotationFirst other =>
    obtain ⟨⟨assigned, moved, after⟩, hassign, heq⟩ := Option.map_eq_some_iff.mp hs
    cases heq
    exact moveAssignment_reported_iff h hfresh hassign

/-! ## Registered sinks stay registered -/

theorem Registered.congr (h : s.Registered databases) (hfile : s'.backingFile = s.backingFile)
    (hdb : s'.fileDatabase = s.fileDatabase) (hkey : s'.key = s.key) : s'.Registered databases := by
  refine ⟨fun hopen => ?_, fun hnone => ?_⟩
  · rw [hkey, hdb]
    exact h.entry (by rwa [← hfile])
  · rw [hkey, hdb]
    exact h.idle (by rwa [← hfile])

/-- What one sink does to the databases: entries of other keys stay as they are, and a new key has
not been in use. -/
structure Touches (s : DbFileSinkBackend) (databases : Databases) (s' : DbFileSinkBackend)
    (databases' : Databases) : Prop where
  others : ∀ db key rcm, Database.entry (databases db) key = some rcm →
    s.fileDatabase ≠ some db ∨ key ≠ s.key → Database.entry (databases' db) key = some rcm
  registered : s'.Registered databases'
  key : s'.backingFile ≠ none →
    (s.backingFile ≠ none ∧ s'.fileDatabase = s.fileDatabase ∧ s'.key = s.key) ∨
      ∃ db, s'.fileDatabase = some db ∧ Database.entry (databases db) s'.key = none

theorem Touches.of_same (h : s.Registered databases) (hfile : s'.backingFile = none ↔
    s.backingFile = none) (hdb : s'.fileDatabase = s.fileDatabase) (hkey : s'.key = s.key) :
    Touches s databases s' databases where
  others _ _ _ hrcm _ := hrcm
  registered := by
    refine ⟨fun hopen => ?_, fun hnone => ?_⟩
    · rw [hkey, hdb]
      exact h.entry (mt hfile.mpr hopen)
    · rw [hkey, hdb]
      exact h.idle (hfile.mp hnone)
  key hopen := .inl ⟨mt hfile.mpr hopen, hdb, hkey⟩

/-- A sink that has got a new file is registered for it. -/
theorem registered_of_added {db : Nat} (hopen : s'.backingFile ≠ none) (hne : s'.key.2 ≠ 0)
    (hdb : s'.fileDatabase = some db)
    (hadded : Database.entry (databases' db) s'.key = some ⟨s'.fileName, 0, s'.key.1, s'.key.2⟩) :
    s'.Registered databases' :=
  ⟨fun _ => ⟨hne, db, hdb, _, hadded, rfl⟩, fun hnone => absurd hnone hopen⟩

theorem Opened.touches (h : Opened s databases s' databases') :
    Touches s databases s' databases' := by
  obtain ⟨db, hdb, hnone, hadded⟩ := h.added
  have hopen : s'.backingFile ≠ none := by rw [h.file]; exact Option.some_ne_none _
  have hdb' : s'.fileDatabase = some db := h.members.1.trans hdb
  exact ⟨fun other key rcm hrcm _ => h.kept other key rcm hrcm,
    registered_of_added hopen h.rotation_ne hdb' hadded, fun _ => .inr ⟨db, hdb', hnone⟩⟩

theorem Rotated.touches {bytes file : Bytes} (h : Rotated s databases bytes file s' databases') :
    Touches s databases s' databases' := by
  obtain ⟨db, hdb, hnone, hadded⟩ := h.added
  have hopen : s'.backingFile ≠ none := by rw [h.backend.file]; exact Option.some_ne_none _
  have hdb' : s'.fileDatabase = some db := h.members.1.trans hdb
  exact ⟨h.others, registered_of_added hopen h.rotation_ne hdb' hadded,
    fun _ => .inr ⟨db, hdb', hnone⟩⟩

theorem Registered.put (h : s.Registered databases) (bs : Bytes) :
    Touches s databases (s.base (Backend.put w bs)) databases := by
  obtain ⟨more, hmore⟩ := Backend.put_appends w bs s.toBackend
  refine .of_same h ?_ rfl (key_base (Backend.put_wrote w bs s.toBackend).core_eq)
  change (s.put w bs).backingFile = none ↔ _
  rw [hmore, Option.map_eq_none_iff]

theorem Registered.flush (h : s.Registered databases) :
    Touches s databases (s.base Backend.flush) databases := by
  obtain ⟨hfile, -, hcore⟩ := Backend.flush_content s.toBackend
  refine .of_same h ?_ rfl (key_base hcore)
  change s.flush.backingFile = none ↔ _
  rw [hfile, Backend.content, Option.map_eq_none_iff]

theorem Registered.syncOutput (h : s.Registered databases) (hfresh : s.Fresh opens databases)
    (hs : syncOutput w filename opens Backend.maxDepth (s, databases) = some (s', databases')) :
    Touches s databases s' databases' := by
  cases syncOutput_cases hfresh hs with
  | closed | kept => exact h.flush
  | opened hfile hopened =>
    obtain ⟨db, hdb, hnone, -⟩ := hopened.added
    exact ⟨fun db key rcm hrcm _ => hopened.kept db key rcm hrcm, hopened.touches.registered,
      fun _ => .inr ⟨db, hopened.members.1.trans hdb, hnone⟩⟩
  | rotated hfile hkeeps hrotated => exact hrotated.touches

theorem Finalized.sinkId {size : UInt32} (hs : Finalized s databases size s' databases') :
    s'.sinkId = s.sinkId := by
  cases hs with
  | closed => rfl
  | kept _ _ _ _ _ hmembers => exact congrArg Prod.fst hmembers.2
  | rotated _ _ hrotated _ _ _ hmembers =>
    exact (congrArg Prod.fst hmembers.2).trans hrotated.members.2.1

/-- `finalize` leaves the entries of other sinks alone, and none of them has the last key. -/
theorem Finalized.others {size : UInt32} (hs : Finalized s databases size s' databases') {db : Nat}
    {key : FileSinkId × UInt32} {rcm : RecordContainerMeta}
    (hrcm : Database.entry (databases db) key = some rcm)
    (hne : s.fileDatabase ≠ some db ∨ key ≠ s.key) :
    Database.entry (databases' db) key = some rcm ∧ (s.fileDatabase ≠ some db ∨ key ≠ s'.key) := by
  cases hs with
  | closed => exact ⟨hrcm, hne⟩
  | kept _ _ _ _ _ hmembers =>
    rw [hmembers.2]
    exact ⟨hrcm, hne⟩
  | rotated _ _ hrotated _ _ _ hmembers =>
    refine ⟨hrotated.others db key rcm hrcm hne, ?_⟩
    by_contra hboth
    obtain ⟨hdb, hkey⟩ := not_or.mp hboth
    rw [not_not] at hdb hkey
    obtain ⟨db', hdb', hnone, -⟩ := hrotated.added
    cases hdb.symm.trans hdb'
    rw [← hmembers.2, ← hkey, hrcm] at hnone
    cases hnone

/-- What is left of a sink that is assigned to, once its own file has been closed. -/
theorem moveAssign_touches {rotationFirst : Bool} {assigned moved : DbFileSinkBackend}
    (hfresh : s.Fresh opens databases)
    (hs : s.moveAssign w filename opens residue rotationFirst other databases =
      some (assigned, moved, databases')) :
    ∃ f : DbFileSinkBackend, assigned = (f.assign residue other).1 ∧
      moved = (f.assign residue other).2 ∧
      Touches s databases { f with fileDatabase := none } databases' := by
  obtain ⟨⟨size, f, before⟩, hfinalize, hs⟩ := Option.bind_eq_some_iff.mp hs
  obtain ⟨after, hupdate, heq⟩ := Option.map_eq_some_iff.mp hs
  cases heq
  have hfinalized := finalize_cases hfresh hfinalize
  have hclosed := hfinalized.backingFile
  refine ⟨f, rfl, rfl, ?_, ⟨fun hopen => absurd hclosed hopen, fun _ => .inl rfl⟩,
    fun hopen => absurd hclosed hopen⟩
  intro db key rcm hrcm hne
  obtain ⟨hbefore, hlast⟩ := hfinalized.others hrcm hne
  obtain ⟨db', hdb', -⟩ := Option.bind_eq_some_iff.mp hupdate
  obtain ⟨-, -, hothers⟩ := updateRecordContainerSize_eq hdb' hupdate
  rw [hothers db key ?_, hbefore]
  have hdb : s.fileDatabase = some db' := hfinalized.fileDatabase.symm.trans hdb'
  rw [hdb] at hne hlast
  have hread : (f.sinkId, UInt32.ofNat
      (if rotationFirst = true then s.currentRotation else f.currentRotation)) = s.key ∨
      (f.sinkId, UInt32.ofNat
        (if rotationFirst = true then s.currentRotation else f.currentRotation)) = f.key := by
    cases rotationFirst with
    | false => exact .inr rfl
    | true =>
      rw [hfinalized.sinkId]
      exact .inl rfl
  rcases hread with hread | hread
  · rw [hread]
    exact hne.imp_left fun hother heq => hother (congrArg some heq.symm)
  · rw [hread]
    exact hlast.imp_left fun hother heq => hother (congrArg some heq.symm)

end DbFileSinkBackend

namespace World

open DbFileSinkBackend (Closing Touches)

/-- Every sink is registered, each under a key of its own. -/
structure Registered (world : World) : Prop where
  each : ∀ place s, world.sinks place = some s → s.Registered world.databases
  apart : ∀ place place' s s', world.sinks place = some s → world.sinks place' = some s' →
    s.backingFile ≠ none → s'.backingFile ≠ none → s.fileDatabase = s'.fileDatabase →
    s.key = s'.key → place = place'

/-- The rotations that the databases have next are not in use. -/
def Unused : Op → World → Prop
  | .make _ config opens, world => (config.start world.epoch).Fresh opens world.databases
  | .syncOutput place opens, world => ∀ s ∈ world.sinkAt place, s.Fresh opens world.databases
  | .moveAssign target _ opens, world => ∀ s ∈ world.sinkAt target, s.Fresh opens world.databases
  | _, _ => True

instance : ∀ (op : Op) (world : World), Decidable (Unused op world)
  | .make _ config opens, world =>
    inferInstanceAs (Decidable ((config.start world.epoch).Fresh opens world.databases))
  | .syncOutput place opens, world | .moveAssign place _ opens, world =>
    inferInstanceAs (Decidable (∀ s ∈ world.sinkAt place, s.Fresh opens world.databases))
  | .record .., _ | .setEpoch _, _ | .moveConstruct .., _ | .swap .., _ =>
    inferInstanceAs (Decidable True)

variable {w : Writer} {filename : String → FileSinkId → UInt32 → Bytes} {residue : String → String}
  {rotationFirst : Bool} {world world' : World} {databases : Databases} {s s' : DbFileSinkBackend}
  {place : Nat} {op : Op} {ops : List Op}

/-- No sink in another place has a file under the key of this one. -/
def HasOwnKey (world : World) (place : Nat) (s : DbFileSinkBackend) : Prop :=
  ∀ other b, other ≠ place → world.sinks other = some b → b.backingFile ≠ none →
    b.fileDatabase = s.fileDatabase → b.key ≠ s.key

/-- The entries of the other sinks are none that the sink touches. -/
theorem Registered.untouched (h : world.Registered)
    (hown : s.backingFile ≠ none → world.HasOwnKey place s) (hs : s.Registered world.databases)
    {other : Nat} {b : DbFileSinkBackend} (hother : other ≠ place)
    (hb : world.sinks other = some b) (hopen : b.backingFile ≠ none) {db : Nat}
    (hdb : b.fileDatabase = some db) : s.fileDatabase ≠ some db ∨ b.key ≠ s.key := by
  by_contra hboth
  obtain ⟨hsdb, hkey⟩ := not_or.mp hboth
  rw [not_not] at hsdb hkey
  by_cases hsopen : s.backingFile = none
  · rcases hs.idle hsopen with hnone | hzero
    · rw [hnone] at hsdb
      cases hsdb
    · exact ((h.each other b hb).entry hopen).1 (hkey ▸ hzero)
  · exact hown hsopen other b hother hb hopen (hdb.trans hsdb.symm) hkey

/-- The sink keeps its key, or gets one that has not been in use. -/
theorem Registered.hasOwnKey (h : world.Registered)
    (hown : s.backingFile ≠ none → world.HasOwnKey place s)
    (ht : Touches s world.databases s' databases) (hopen' : s'.backingFile ≠ none) :
    world.HasOwnKey place s' := by
  intro other b hother hb hopen hdb hkey
  rcases ht.key hopen' with ⟨hsopen, hsdb, hskey⟩ | ⟨db, hsdb, hnone⟩
  · exact hown hsopen other b hother hb hopen (hdb.trans hsdb) (hkey.trans hskey)
  · obtain ⟨-, db', hdb', rcm, hrcm, -⟩ := (h.each other b hb).entry hopen
    cases (hdb'.symm.trans hdb).trans hsdb
    rw [← hkey, hrcm] at hnone
    cases hnone

/-- A step of a single sink, whose key no other one has. -/
theorem Registered.put (h : world.Registered)
    (hown : s.backingFile ≠ none → world.HasOwnKey place s) (hs : s.Registered world.databases)
    (ht : Touches s world.databases s' databases) :
    ({ world with databases }.put place s').Registered := by
  constructor
  · intro other b hb
    simp only [World.put, Function.update_apply] at hb
    split_ifs at hb with hother
    · cases hb
      exact ht.registered
    · have hb' := h.each other b hb
      refine ⟨fun hopen => ?_, hb'.idle⟩
      obtain ⟨hne, db, hdb, rcm, hrcm, hzero⟩ := hb'.entry hopen
      have hkept := h.untouched hown hs hother hb hopen hdb
      exact ⟨hne, db, hdb, rcm, ht.others db b.key rcm hrcm hkept, hzero⟩
  · intro p q a b ha hb hopen hopen' hdb hkey
    simp only [World.put, Function.update_apply] at ha hb
    split_ifs at ha hb with hp hq hq
    · exact hp.trans hq.symm
    · cases ha
      exact absurd hkey.symm (h.hasOwnKey hown ht hopen q b hq hb hopen' hdb.symm)
    · cases hb
      exact absurd hkey (h.hasOwnKey hown ht hopen' p a hp ha hopen hdb)
    · exact h.apart p q a b ha hb hopen hopen' hdb hkey

/-- Sinks that change places take their keys with them, and what has lost its file has no key. -/
theorem Registered.relabel (h : world.Registered) (places : Equiv.Perm Nat)
    (hsame : world'.databases = world.databases)
    (hsinks : ∀ place a, world'.sinks place = some a →
      (a.backingFile = none ∧ a.fileDatabase = none) ∨
        ∃ b, world.sinks (places place) = some b ∧ a.backingFile = b.backingFile ∧
          a.fileDatabase = b.fileDatabase ∧ a.key = b.key) : world'.Registered := by
  constructor
  · intro place a ha
    rw [hsame]
    rcases hsinks place a ha with ⟨hclosed, hnone⟩ | ⟨b, hb, hfile, hdb, hkey⟩
    · exact ⟨fun hopen => absurd hclosed hopen, fun _ => .inl hnone⟩
    · exact (h.each _ b hb).congr hfile hdb hkey
  · intro p q a a' ha ha' hopen hopen' hdb hkey
    rcases hsinks p a ha with ⟨hclosed, -⟩ | ⟨b, hb, hfile, hbdb, hbkey⟩
    · exact absurd hclosed hopen
    rcases hsinks q a' ha' with ⟨hclosed, -⟩ | ⟨b', hb', hfile', hbdb', hbkey'⟩
    · exact absurd hclosed hopen'
    refine places.injective (h.apart _ _ b b' hb hb' ?_ ?_ ?_ ?_)
    · rwa [← hfile]
    · rwa [← hfile']
    · rw [← hbdb, hdb, hbdb']
    · rw [← hbkey, hkey, hbkey']

theorem Registered.sinkAt (h : world.Registered) (hs : world.sinkAt place = some s) :
    s.Registered world.databases := by
  obtain ⟨stored, hstored, rfl⟩ := Option.map_eq_some_iff.mp hs
  exact (h.each place stored hstored).congr rfl rfl rfl

/-- A step of a sink in its place. -/
theorem Registered.put_sinkAt (h : world.Registered) (hs : world.sinkAt place = some s)
    (ht : Touches s world.databases s' databases) :
    ({ world with databases }.put place s').Registered := by
  refine h.put (fun hopen other b hother hb hopen' hdb hkey => ?_) (h.sinkAt hs) ht
  obtain ⟨stored, hstored, rfl⟩ := Option.map_eq_some_iff.mp hs
  exact hother (h.apart other place b stored hb hstored hopen' hopen hdb hkey)

/-- A sink that goes from one place to another, while the first one is left without a file. -/
theorem Registered.transfer (target : Nat) {source : Nat} {other : DbFileSinkBackend}
    (moved left : DbFileSinkBackend) (h : world.Registered)
    (hother : world.sinks source = some other)
    (hmoved : moved.backingFile = other.backingFile ∧ moved.fileDatabase = other.fileDatabase ∧
      moved.key = other.key) (hleft : left.backingFile = none ∧ left.fileDatabase = none) :
    ((world.put target moved).put source left).Registered := by
  refine h.relabel (Equiv.swap target source) rfl fun place a ha => ?_
  simp only [World.put, Function.update_apply] at ha
  split_ifs at ha with hsource htarget
  · cases ha
    exact .inl hleft
  · cases ha
    subst htarget
    rw [Equiv.swap_apply_left]
    exact .inr ⟨other, hother, hmoved⟩
  · rw [Equiv.swap_apply_of_ne_of_ne htarget hsource]
    exact .inr ⟨a, ha, rfl, rfl, rfl⟩

theorem Registered.swap {lhs rhs : Nat} {l r : DbFileSinkBackend} (h : world.Registered)
    (hl : world.sinkAt lhs = some l) (hr : world.sinkAt rhs = some r) :
    ((world.put lhs (l.swapped r)).put rhs (r.swapped l)).Registered := by
  obtain ⟨l', hl', rfl⟩ := Option.map_eq_some_iff.mp hl
  obtain ⟨r', hr', rfl⟩ := Option.map_eq_some_iff.mp hr
  refine h.relabel (Equiv.swap lhs rhs) rfl fun place a ha => ?_
  simp only [World.put, Function.update_apply] at ha
  split_ifs at ha with hrhs hlhs
  · cases ha
    rw [hrhs, Equiv.swap_apply_right]
    exact .inr ⟨l', hl', rfl, rfl, rfl⟩
  · cases ha
    rw [hlhs, Equiv.swap_apply_left]
    exact .inr ⟨r', hr', rfl, rfl, rfl⟩
  · rw [Equiv.swap_apply_of_ne_of_ne hlhs hrhs]
    exact .inr ⟨a, ha, rfl, rfl, rfl⟩

theorem Registered.step (h : world.Registered) (hunused : Unused op world)
    (hstep : step w filename residue rotationFirst op world = some world') :
    world'.Registered := by
  cases op with
  | make place config opens =>
    rw [World.step] at hstep
    split_ifs at hstep
    obtain ⟨⟨s, databases⟩, hmake, rfl⟩ := Option.map_eq_some_iff.mp hstep
    have hstart : (config.start world.epoch).Registered world.databases :=
      ⟨fun hopen => absurd rfl hopen, fun _ => .inr rfl⟩
    refine h.put (fun hopen => absurd rfl hopen) hstart ?_
    rcases DbFileSinkBackend.rotate_closed rfl hunused hmake with ⟨rfl, rfl⟩ | hopened
    · exact .of_same hstart Iff.rfl rfl rfl
    · exact hopened.touches
  | record place bs =>
    obtain ⟨s, hs, rfl⟩ := Option.map_eq_some_iff.mp hstep
    exact h.put_sinkAt hs ((h.sinkAt hs).put bs)
  | syncOutput place opens =>
    obtain ⟨s, hs, hstep⟩ := Option.bind_eq_some_iff.mp hstep
    obtain ⟨⟨t, databases⟩, hsync, rfl⟩ := Option.map_eq_some_iff.mp hstep
    exact h.put_sinkAt hs ((h.sinkAt hs).syncOutput (hunused s hs) hsync)
  | setEpoch epoch =>
    cases hstep
    exact ⟨h.each, h.apart⟩
  | moveConstruct target source =>
    rw [World.step] at hstep
    split_ifs at hstep
    obtain ⟨other, hother, rfl⟩ := Option.map_eq_some_iff.mp hstep
    obtain ⟨stored, hstored, rfl⟩ := Option.map_eq_some_iff.mp hother
    exact h.transfer target _ _ hstored ⟨rfl, rfl, rfl⟩ ⟨rfl, rfl⟩
  | moveAssign target source opens =>
    rw [World.step] at hstep
    split_ifs at hstep with hne
    obtain ⟨s, hs, hstep⟩ := Option.bind_eq_some_iff.mp hstep
    obtain ⟨other, hother, hstep⟩ := Option.bind_eq_some_iff.mp hstep
    obtain ⟨⟨assigned, moved, databases⟩, hassign, rfl⟩ := Option.map_eq_some_iff.mp hstep
    obtain ⟨f, rfl, rfl, htouches⟩ := DbFileSinkBackend.moveAssign_touches (hunused s hs) hassign
    obtain ⟨stored, hstored, rfl⟩ := Option.map_eq_some_iff.mp hother
    -- the target has first lost its own file, and then takes the place of the source
    have hclosed := h.put_sinkAt hs htouches
    have hsource : (({ world with databases } : World).put target
        { f with fileDatabase := none }).sinks source = some stored := by
      simp only [World.put, Function.update_apply]
      rw [if_neg (Ne.symm hne)]
      exact hstored
    have htransferred := hclosed.transfer target
      (f.assign residue { stored with epoch := world.epoch }).1
      (f.assign residue { stored with epoch := world.epoch }).2 hsource ⟨rfl, rfl, rfl⟩ ⟨rfl, rfl⟩
    simpa [World.put] using htransferred
  | swap lhs rhs =>
    obtain ⟨l, hl, hstep⟩ := Option.bind_eq_some_iff.mp hstep
    obtain ⟨r, hr, rfl⟩ := Option.map_eq_some_iff.mp hstep
    exact h.swap hl hr

/-- Wherever a sink of a program closes a container, its size reaches the database exactly if it
survives. -/
theorem final_sizes_iff (w : Writer) (filename : String → FileSinkId → UInt32 → Bytes)
    (residue : String → String) (rotationFirst : Bool) {ops : List Op} {world world' : World}
    (hempty : ∀ place, world.sinks place = none)
    (hunused : Runs.Along (step w filename residue rotationFirst) Unused ops world)
    (hrun : Runs.run (step w filename residue rotationFirst) ops world = some world')
    {place : Nat} {s s' : DbFileSinkBackend} (hs : world'.sinkAt place = some s)
    (closing : Closing) {opens : List OpenOutcome} (hfresh : s.Fresh opens world'.databases)
    {databases : Databases}
    (hclose : s.close w filename opens residue world'.databases closing = some (s', databases)) :
    s.SizesReported s' databases ↔ closing.Reports s := by
  have hregistered : world.Registered := by
    refine ⟨fun place s hs => ?_, fun place _ s _ hs => ?_⟩
    all_goals
      rw [hempty place] at hs
      cases hs
  have hregistered' : world'.Registered :=
    Runs.invariant (fun _ _ _ hunused h hstep => h.step hunused hstep) hunused hregistered hrun
  exact DbFileSinkBackend.close_reported_iff (hregistered'.sinkAt hs) hfresh hclose

/-- A sink that is destroyed behind a rotation. -/
theorem final_sizes_iff_sample : ∃ world' s s' databases,
    Runs.run (step Backend.plainWriter shortFile id false)
      [makeSink 0 20 [], .record 0 [0x01], .setEpoch ⟨6, 7⟩, .syncOutput 0 [.opened]] fresh =
        some world' ∧
    world'.sinkAt 0 = some s ∧
    s.close Backend.plainWriter shortFile [] id world'.databases .destruction =
      some (s', databases) ∧
    (s.SizesReported s' databases ↔ Closing.destruction.Reports s) := by
  let ops : List Op :=
    [makeSink 0 20 [], .record 0 [0x01], .setEpoch ⟨6, 7⟩, .syncOutput 0 [.opened]]
  have hsome : (Runs.run (step Backend.plainWriter shortFile id false) ops fresh).any
      (fun world' => (world'.sinkAt 0).any fun s =>
        (s.close Backend.plainWriter shortFile [] id world'.databases .destruction).isSome ∧
          s.Fresh [] world'.databases) = true := by decide +kernel
  obtain ⟨world', hrun, hsome⟩ := (Option.any_eq_true _ _).mp hsome
  obtain ⟨s, hs, hsome⟩ := (Option.any_eq_true _ _).mp hsome
  obtain ⟨hclose, hfresh⟩ := of_decide_eq_true hsome
  obtain ⟨⟨s', databases⟩, hclose⟩ := Option.isSome_iff_exists.mp hclose
  have hunused : Runs.Along (step Backend.plainWriter shortFile id false) Unused ops fresh := by
    decide +kernel
  exact ⟨world', s, s', databases, hrun, hs, hclose,
    final_sizes_iff Backend.plainWriter shortFile id
    false (fun _ => rfl) hunused hrun hs .destruction hfresh hclose⟩

/-- A sink that is finalised: its entry has no size. -/
theorem final_sizes_dropped :
    ¬∀ (w : Writer) (filename : String → FileSinkId → UInt32 → Bytes) (residue : String → String)
      (rotationFirst : Bool) (ops : List Op) (world world' : World),
      (∀ place, world.sinks place = none) →
      Runs.run (step w filename residue rotationFirst) ops world = some world' →
      ∀ (place : Nat) (s s' : DbFileSinkBackend) (closing : Closing) (opens : List OpenOutcome)
        (databases : Databases), world'.sinkAt place = some s →
        s.close w filename opens residue world'.databases closing = some (s', databases) →
        s.SizesReported s' databases := by
  intro h
  have hwrong : (Runs.run (step Backend.plainWriter shortFile id false)
      [makeSink 0 20 [], .record 0 [0x01]] fresh).any (fun world' =>
        (world'.sinkAt 0).any fun s =>
          (s.close Backend.plainWriter shortFile [] id world'.databases .tryFinalize).any
            fun closed => (closed.1.closed.drop s.closed.length).any fun container =>
              ∀ db ∈ s.fileDatabase,
                ∀ rcm ∈ entry (closed.2 db) (s.sinkId, .ofNat container.1),
                  rcm.byteSize.toNat ≠ min container.2.length (2 ^ 32 - 1)) = true := by
    decide +kernel
  obtain ⟨world', hrun, hwrong⟩ := (Option.any_eq_true _ _).mp hwrong
  obtain ⟨s, hs, hwrong⟩ := (Option.any_eq_true _ _).mp hwrong
  obtain ⟨⟨s', databases⟩, hclose, hwrong⟩ := (Option.any_eq_true _ _).mp hwrong
  obtain ⟨container, hmem, hwrong⟩ := List.any_eq_true.mp hwrong
  obtain ⟨db, hdb, rcm, hrcm, hsize⟩ :=
    h _ _ _ _ _ fresh world' (fun _ => rfl) hrun 0 s s' .tryFinalize [] databases hs hclose
      container hmem
  exact of_decide_eq_true hwrong db hdb rcm hrcm hsize

end World

end Deeplog.Sink

import Mathlib.Tactic.Tauto
import Deeplog.Lib.Cbor
import Deeplog.Lib.Runs

/-!
# The file sink backends

`file_sink_backend` collects what it is given in a buffer and appends it to its backing file;
`db_file_sink_backend` replaces the file by a new one when it has grown too large or the epoch
has changed. The two call each other: `sync_output` ends in `rotate`, which asks `do_rotate`,
which finishes the old file with another `sync_output`.
-/

namespace Deeplog.Sink

open Cbor (Bytes)

/-- `log_clock::epoch_info`, in nanoseconds. -/
structure Epoch where
  systemReference : Int
  steadyReference : Int
  deriving DecidableEq

/-- Both references are 64-bit numbers. -/
def Epoch.InRange (epoch : Epoch) : Prop :=
  (-2 ^ 63 ≤ epoch.systemReference ∧ epoch.systemReference < 2 ^ 63) ∧
    (-2 ^ 63 ≤ epoch.steadyReference ∧ epoch.steadyReference < 2 ^ 63)

instance (epoch : Epoch) : Decidable epoch.InRange := inferInstanceAs (Decidable (_ ∧ _))

def Epoch.encode (epoch : Epoch) : Bytes :=
  Cbor.encodeHead 4 2 ++ Cbor.encodeInt epoch.systemReference ++
    Cbor.encodeInt epoch.steadyReference

def magic : Bytes :=
  [0x83, 0x4e, 0x0d, 0x0a, 0xab, 0x7e, 0x7b, 0x64, 0x6c, 0x6f, 0x67, 0x7d, 0x7e, 0xbb, 0x0a, 0x1a]

/-! ## Writing through the output buffer -/

/-- What a write through `dp::output_buffer` comes down to: bytes into the remaining space, and
calls of the two virtual functions. -/
inductive Call where
  | store (bs : Bytes)
  | grow (requestedSize : Nat)
  | bulkWrite (bs : Bytes)

def Call.bytes : Call → Bytes
  | .store bs | .bulkWrite bs => bs
  | .grow _ => []

/-- The part of a write that lies in deeppack: which calls it makes, given the remaining space
and the buffer size. The bytes arrive in order. -/
structure Writer where
  calls : (remaining bufferSize : Nat) → Bytes → List Call
  bytes_eq : ∀ remaining bufferSize bs, (calls remaining bufferSize bs).flatMap Call.bytes = bs

/-- A backend with its members, the epoch of the `log_clock`, and what it has done to the database:
the containers it has created and closed and the sizes it has reported. -/
structure Backend where
  backingFile : Option Bytes
  buffered : Bytes
  bufferSize : Nat
  targetBufferSize : Nat
  containerInfo : Bytes
  maxFileSize : Nat
  fileEpoch : Epoch
  fileNamePattern : String
  currentRotation : Nat
  epoch : Epoch
  created : Nat
  closed : List (Nat × Bytes)
  sizes : List (Nat × Nat)

namespace Backend

/-- The file with what is still to be written to it. -/
def content (s : Backend) : Option Bytes := s.backingFile.map (· ++ s.buffered)

/-- `mBackingFile.write`, for a handle opened in append mode. -/
def writeFile (bs : Bytes) (s : Backend) : Backend :=
  { s with backingFile := s.backingFile.map (· ++ bs) }

def doGrow (requestedSize : Nat) (s : Backend) : Backend :=
  let s := if s.buffered ≠ [] then s.writeFile s.buffered else s
  let s := if s.bufferSize < requestedSize then { s with bufferSize := requestedSize } else s
  { s with buffered := [] }

def doBulkWrite (bs : Bytes) (s : Backend) : Backend :=
  if bs.length < s.bufferSize / 2 then { s.writeFile s.buffered with buffered := bs }
  else { s.writeFile (s.buffered ++ bs) with buffered := [] }

def call (s : Backend) : Call → Backend
  | .store bs => { s with buffered := s.buffered ++ bs }
  | .grow requestedSize => s.doGrow requestedSize
  | .bulkWrite bs => s.doBulkWrite bs

/-- Any write through the output buffer. -/
def put (w : Writer) (bs : Bytes) (s : Backend) : Backend :=
  (w.calls (s.bufferSize - s.buffered.length) s.bufferSize bs).foldl call s

/-- The pieces of the header in `rotate`. -/
def headerPieces (epoch : Epoch) (attributes : Bytes) : List Bytes :=
  [magic, Cbor.encodeHead 5 3,
    [0x00], Cbor.encodeInt 0, -- version
    Cbor.encodeInt 4, epoch.encode,
    Cbor.encodeInt 23, if attributes = [] then Cbor.encodeHead 5 0 else attributes,
    [0x9f]]

/-- The part of `rotate` behind `do_rotate`. -/
def writeHeader (w : Writer) (s : Backend) : Backend :=
  let s := { s with buffered := [] }
  let s := (headerPieces s.epoch s.containerInfo).foldl (fun s bs => s.put w bs) s
  { s.writeFile s.buffered with buffered := [] }

def rotate (w : Writer) (doRotate : Backend → Option (Bool × Backend)) (s : Backend) :
    Option Backend :=
  (doRotate s).map fun (needsInit, s) => if needsInit then s.writeHeader w else s

/-- The part of `do_sync_output` before `rotate`. -/
def flush (s : Backend) : Backend :=
  let s := if s.buffered ≠ [] then s.writeFile s.buffered else s
  { s with bufferSize := s.targetBufferSize, buffered := [] }

def syncOutput (w : Writer) (doRotate : Backend → Option (Bool × Backend)) (s : Backend) :
    Option Backend := s.flush.rotate w doRotate

/-! ## `db_file_sink_backend` -/

/-- `create_record_container`, with the rotations that the database gives out. -/
def createContainer (rotations : Nat → Nat) (s : Backend) : Backend :=
  { s with
    backingFile := some []
    fileEpoch := s.epoch
    currentRotation := rotations s.created
    created := s.created + 1 }

/-- `unlock_file` and `close`. -/
def closeFile (rotation : Nat) (s : Backend) : Backend :=
  { s with
    backingFile := none
    closed := s.closed ++ (s.backingFile.map fun file => (rotation, file)).toList }

def reportSize (rotation : Nat) (s : Backend) : Backend :=
  { s with sizes := s.sizes ++
      (s.backingFile.map fun file => (rotation, file.length % 2 ^ 32)).toList }

variable (w : Writer) (rotations : Nat → Nat)

/-- `db_file_sink_backend::do_rotate`, with the `sync_output` that it calls. -/
def doRotate (sync : Backend → Option Backend) (s : Backend) : Option (Bool × Backend) :=
  if s.fileNamePattern.isEmpty then some (false, s)
  else match s.backingFile with
    | none => some (true, s.createContainer rotations)
    | some file =>
      if s.currentRotation = 0 then some (false, s)
      else if file.length ≤ s.maxFileSize ∧ s.epoch = s.fileEpoch then some (false, s)
      else
        let rotation := s.currentRotation
        (sync { s.put w [0xff] with currentRotation := 0 }).map fun s =>
          (true, ((s.reportSize rotation).closeFile rotation).createContainer rotations)

/-- `sync_output` of a `db_file_sink_backend`, for recursions up to the given depth. -/
def dbSyncOutput : Nat → Backend → Option Backend
  | 0, _ => none
  | depth + 1, s => s.syncOutput w (doRotate w rotations fun s => dbSyncOutput depth s)

/-- No recursion is deeper than this. -/
def maxDepth : Nat := 2

/-- A backend as it is constructed. -/
def start (maxFileSize targetBufferSize : Nat) (fileNamePattern : String) (attributes : Bytes)
    (epoch : Epoch) : Backend where
  backingFile := none
  buffered := []
  bufferSize := targetBufferSize
  targetBufferSize
  containerInfo := attributes
  maxFileSize
  fileEpoch := ⟨0, 0⟩
  fileNamePattern
  currentRotation := 0
  epoch
  created := 0
  closed := []
  sizes := []

/-- The maker ends in `rotate`, which creates the first container. -/
def make (maxFileSize targetBufferSize : Nat) (fileNamePattern : String) (attributes : Bytes)
    (epoch : Epoch) : Option Backend :=
  rotate w (doRotate w rotations (dbSyncOutput w rotations maxDepth))
    (start maxFileSize targetBufferSize fileNamePattern attributes epoch)

/-- The end of `finalize` and of the destructor. -/
def release (s : Backend) : Backend :=
  ({ s.reportSize s.currentRotation with buffered := [] }).closeFile s.currentRotation

def finalize (s : Backend) : Option Backend :=
  match s.backingFile with
  | none => some s
  | some _ => (dbSyncOutput w rotations maxDepth (s.put w [0xff])).map release

/-- What happens to a sink between its maker and its end. -/
inductive Op where
  | record (bs : Bytes)
  | syncOutput
  | setEpoch (epoch : Epoch)

def step (op : Op) (s : Backend) : Option Backend :=
  match op with
  | .record bs => some (s.put w bs)
  | .syncOutput => dbSyncOutput w rotations maxDepth s
  | .setEpoch epoch => some { s with epoch }

/-! ## What a write does -/

/-- Everything but the file and the buffer. -/
def core (s : Backend) : Backend := { s with backingFile := none, buffered := [], bufferSize := 0 }

/-- `bs` has been appended, and nothing but the file and the buffer has changed. -/
structure Wrote (bs : Bytes) (s s' : Backend) : Prop where
  content : s'.content = s.content.map (· ++ bs)
  core_eq : s'.core = s.core

theorem Wrote.refl (s : Backend) : Wrote [] s s := ⟨by simp, rfl⟩

theorem Wrote.trans {s s₁ s₂ : Backend} {as bs : Bytes} (h : Wrote as s s₁) (g : Wrote bs s₁ s₂) :
    Wrote (as ++ bs) s s₂ := by
  refine ⟨?_, g.core_eq.trans h.core_eq⟩
  rw [g.content, h.content, Option.map_map]
  simp [Function.comp_def]

theorem call_wrote (c : Call) (s : Backend) : Wrote c.bytes s (s.call c) := by
  cases c with
  | store bs => exact ⟨by simp [content, call, Call.bytes, Function.comp_def], rfl⟩
  | grow n =>
    simp only [call, doGrow, Call.bytes]
    split_ifs <;> exact ⟨by simp_all [content, writeFile], rfl⟩
  | bulkWrite bs =>
    simp only [call, doBulkWrite, Call.bytes]
    split_ifs <;> exact ⟨by simp [content, writeFile, Function.comp_def], rfl⟩

theorem puts_wrote (pieces : List Bytes) (s : Backend) :
    Wrote pieces.flatten s (pieces.foldl (fun s bs => s.put w bs) s) := by
  have hcalls : ∀ (cs : List Call) (s : Backend),
      Wrote (cs.flatMap Call.bytes) s (cs.foldl call s) := by
    intro cs
    induction cs with
    | nil => exact Wrote.refl
    | cons c cs ih => exact fun s => (call_wrote c s).trans (ih _)
  induction pieces generalizing s with
  | nil => exact Wrote.refl s
  | cons bs pieces ih =>
    have hput := hcalls (w.calls (s.bufferSize - s.buffered.length) s.bufferSize bs) s
    rw [w.bytes_eq] at hput
    exact hput.trans (ih _)

theorem put_wrote (bs : Bytes) (s : Backend) : Wrote bs s (s.put w bs) := by
  simpa using puts_wrote w [bs] s

/-- After `flush`, the file holds everything. -/
theorem flush_content (s : Backend) :
    s.flush.backingFile = s.content ∧ s.flush.buffered = [] ∧ s.flush.core = s.core := by
  unfold flush
  by_cases hb : s.buffered = []
  · simp [hb, content, core]
  · simp [hb, content, core, writeFile]

/-- The header of a container. -/
def header (epoch : Epoch) (attributes : Bytes) : Bytes := (headerPieces epoch attributes).flatten

theorem header_ne_nil (epoch : Epoch) (attributes : Bytes) : header epoch attributes ≠ [] := by
  simp [header, headerPieces, magic]

/-- A new file receives its header. -/
theorem writeHeader_content {s : Backend} (hfile : s.backingFile = some []) :
    (s.writeHeader w).backingFile = some (header s.epoch s.containerInfo) ∧
      (s.writeHeader w).buffered = [] ∧ (s.writeHeader w).core = s.core := by
  have hw := puts_wrote w (headerPieces s.epoch s.containerInfo) { s with buffered := [] }
  refine ⟨?_, rfl, hw.core_eq⟩
  have hc := hw.content
  have hempty : ({ s with buffered := [] } : Backend).content = some [] := by
    simp [content, hfile]
  rw [hempty] at hc
  exact hc

/-! ## Rotation -/

/-- A sink keeps its file when it is synchronised at this length. -/
def Keeps (s : Backend) (length : Nat) : Prop :=
  s.fileNamePattern.isEmpty = true ∨ s.currentRotation = 0 ∨
    (length ≤ s.maxFileSize ∧ s.epoch = s.fileEpoch)

instance (s : Backend) (length : Nat) : Decidable (s.Keeps length) :=
  inferInstanceAs (Decidable (_ ∨ _))

theorem core_inj {s s' : Backend} (h : s'.core = s.core) :
    s'.containerInfo = s.containerInfo ∧ s'.maxFileSize = s.maxFileSize ∧
      s'.fileEpoch = s.fileEpoch ∧ s'.fileNamePattern = s.fileNamePattern ∧
      s'.currentRotation = s.currentRotation ∧ s'.epoch = s.epoch ∧ s'.closed = s.closed := by
  simp only [core, Backend.mk.injEq] at h
  tauto

theorem keeps_congr {s s' : Backend} (h : s'.core = s.core) (length : Nat) :
    s'.Keeps length ↔ s.Keeps length := by
  obtain ⟨-, h1, h2, h3, h4, h5, -⟩ := core_inj h
  simp only [Keeps, h1, h2, h3, h4, h5]

/-- Whether the final break leaves the file where it is. -/
theorem keeps_break_iff (w : Writer) (s : Backend) (bytes : Bytes) :
    (s.put w [0xff]).Keeps (bytes ++ [0xff]).length ↔ s.Keeps (bytes.length + 1) := by
  rw [List.length_append, List.length_singleton]
  exact keeps_congr (put_wrote w [0xff] s).core_eq _

theorem closeFile_closed {s : Backend} {file : Bytes} (rotation : Nat)
    (hfile : s.backingFile = some file) :
    (s.closeFile rotation).closed = s.closed ++ [(rotation, file)] := by
  rw [closeFile, hfile, Option.map_some, Option.toList_some]

theorem dbSyncOutput_keeps {s : Backend} {bytes : Bytes} (hc : s.content = some bytes)
    (hkeeps : s.Keeps bytes.length) (depth : Nat) :
    dbSyncOutput w rotations (depth + 1) s = some s.flush := by
  obtain ⟨hfile, -, hcore⟩ := flush_content s
  rw [hc] at hfile
  have hkeeps' := (keeps_congr hcore _).mpr hkeeps
  simp only [dbSyncOutput, syncOutput, rotate, doRotate, hfile]
  unfold Keeps at hkeeps'
  split_ifs <;> simp_all

/-- The file with its final break is closed, and the sink has gone over to a new one. -/
structure Rotated (s s' : Backend) (bytes file : Bytes) : Prop where
  file : s'.backingFile = some file
  buffered : s'.buffered = []
  closed : s'.closed = s.closed ++ [(s.currentRotation, bytes ++ [0xff])]
  fileEpoch : s'.fileEpoch = s.epoch
  epoch : s'.epoch = s.epoch
  containerInfo : s'.containerInfo = s.containerInfo

/-- The break goes out with a `sync_output` that finds the rotation zeroed. -/
theorem doRotate_rotates {sync : Backend → Option Backend} {s : Backend} {bytes : Bytes}
    (hfile : s.backingFile = some bytes) (hempty : s.buffered = [])
    (hkeeps : ¬ s.Keeps bytes.length)
    (hsync : ∀ t c, t.content = some c → t.currentRotation = 0 → sync t = some t.flush) :
    ∃ u, doRotate w rotations sync s = some (true, u) ∧ Rotated s u bytes [] := by
  simp only [Keeps, not_or] at hkeeps
  have hbreak := put_wrote w [0xff] s
  let t : Backend := { s.put w [0xff] with currentRotation := 0 }
  have ht : t.content = some (bytes ++ [0xff]) := by
    have hcontent := hbreak.content
    rwa [show s.content = some bytes by simp [content, hfile, hempty], Option.map_some] at hcontent
  obtain ⟨htfile, htempty, htcore⟩ := flush_content t
  rw [ht] at htfile
  obtain ⟨tinfo, -, -, -, -, tepoch, tclosed⟩ := core_inj htcore
  obtain ⟨pinfo, -, -, -, -, pepoch, pclosed⟩ := core_inj hbreak.core_eq
  refine ⟨((t.flush.reportSize s.currentRotation).closeFile s.currentRotation).createContainer
    rotations, ?_, ?_⟩
  · have hs : sync { s.put w [0xff] with currentRotation := 0 } = some t.flush := hsync t _ ht rfl
    simp only [doRotate, hfile, if_neg hkeeps.1, if_neg hkeeps.2.1, if_neg hkeeps.2.2, hs,
      Option.map_some]
  · refine ⟨rfl, htempty, ?_, tepoch.trans pepoch, tepoch.trans pepoch, tinfo.trans pinfo⟩
    have hclosed : t.flush.closed = s.closed := tclosed.trans pclosed
    simp [createContainer, closeFile, reportSize, htfile, hclosed]

theorem dbSyncOutput_rotates {s : Backend} {bytes : Bytes} (hc : s.content = some bytes)
    (hkeeps : ¬ s.Keeps bytes.length) (depth : Nat) :
    ∃ s', dbSyncOutput w rotations (depth + 2) s = some s' ∧
      Rotated s s' bytes (header s.epoch s.containerInfo) := by
  obtain ⟨hfile, hempty, hcore⟩ := flush_content s
  rw [hc] at hfile
  obtain ⟨hinfo, -, -, -, hrot, hepoch, hclosed⟩ := core_inj hcore
  obtain ⟨u, hu, hrotated⟩ := doRotate_rotates w rotations hfile hempty
    (mt (keeps_congr hcore _).mp hkeeps)
    fun t c htc h0 => dbSyncOutput_keeps w rotations htc (.inr (.inl h0)) depth
  obtain ⟨hwfile, hwempty, hwcore⟩ := writeHeader_content w hrotated.file
  obtain ⟨winfo, -, wepoch', -, -, wepoch, wclosed⟩ := core_inj hwcore
  refine ⟨u.writeHeader w, ?_, ?_, hwempty, ?_, ?_, ?_, ?_⟩
  · rw [dbSyncOutput, syncOutput, rotate, hu]; rfl
  · rw [hwfile, hrotated.epoch, hrotated.containerInfo, hepoch, hinfo]
  · rw [wclosed, hrotated.closed, hclosed, hrot]
  · rw [wepoch', hrotated.fileEpoch, hepoch]
  · rw [wepoch, hrotated.epoch, hepoch]
  · rw [winfo, hrotated.containerInfo, hinfo]

/-! ## Containers -/

/-- One header, whole records, one break. -/
def WellFormed (attributes file : Bytes) : Prop :=
  ∃ (epoch : Epoch) (records : List Bytes), (∀ r ∈ records, Cbor.Item r) ∧
    file = header epoch attributes ++ records.flatten ++ [0xff]

/-- Every closed container is well formed, and the open one will be. -/
structure Ok (attributes : Bytes) (s : Backend) : Prop where
  info : s.containerInfo = attributes
  closed : ∀ c ∈ s.closed, WellFormed attributes c.2
  open_ : ∀ bytes ∈ s.content, ∃ records : List Bytes, (∀ r ∈ records, Cbor.Item r) ∧
    bytes = header s.fileEpoch attributes ++ records.flatten

variable {attributes : Bytes} {s s' : Backend}

theorem Ok.rotated {bytes : Bytes} (h : s.Ok attributes) (hc : s.content = some bytes)
    (hr : Rotated s s' bytes (header s.epoch s.containerInfo)) : s'.Ok attributes where
  info := hr.containerInfo.trans h.info
  closed := by
    intro c hmem
    rw [hr.closed, List.mem_append, List.mem_singleton] at hmem
    rcases hmem with hmem | rfl
    · exact h.closed c hmem
    · obtain ⟨records, hrec, rfl⟩ := h.open_ bytes hc
      exact ⟨s.fileEpoch, records, hrec, rfl⟩
  open_ := by
    intro bytes' hc'
    rw [content, hr.file, hr.buffered, Option.map_some, List.append_nil] at hc'
    cases hc'
    exact ⟨[], by simp, by rw [hr.fileEpoch, h.info]; simp⟩

theorem Ok.wrote {r : Bytes} (h : s.Ok attributes) (hr : Cbor.Item r) (hw : Wrote r s s') :
    s'.Ok attributes := by
  obtain ⟨hinfo, -, hfileEpoch, -, -, -, hclosed⟩ := core_inj hw.core_eq
  refine ⟨hinfo.trans h.info, by rw [hclosed]; exact h.closed, fun bytes hb => ?_⟩
  rw [hw.content] at hb
  obtain ⟨bytes₀, h₀, rfl⟩ := Option.map_eq_some_iff.mp hb
  obtain ⟨records, hrec, rfl⟩ := h.open_ bytes₀ h₀
  refine ⟨records ++ [r], ?_, by rw [hfileEpoch]; simp⟩
  intro r' hr'
  rcases List.mem_append.mp hr' with hr' | hr'
  · exact hrec r' hr'
  · rw [List.mem_singleton.mp hr']; exact hr

/-- The file of a sink is open, or there never was one. -/
def Opened (s : Backend) : Prop := s.backingFile = none → s.fileNamePattern.isEmpty = true

theorem Ok.syncOutput (h : s.Ok attributes) (ho : s.Opened) :
    ∃ s', dbSyncOutput w rotations maxDepth s = some s' ∧ s'.Ok attributes ∧ s'.Opened := by
  cases hc : s.content with
  | none =>
    have hfile : s.backingFile = none := by simpa [content] using hc
    obtain ⟨hffile, hfempty, hcore⟩ := flush_content s
    obtain ⟨hinfo, -, hfileEpoch, hpattern, -, -, hclosed⟩ := core_inj hcore
    rw [hc] at hffile
    have hp : s.flush.fileNamePattern.isEmpty = true := by rw [hpattern]; exact ho hfile
    refine ⟨s.flush, ?_, ⟨hinfo.trans h.info, by rw [hclosed]; exact h.closed, ?_⟩, fun _ => hp⟩
    · simp [dbSyncOutput, Backend.syncOutput, rotate, doRotate, hp, maxDepth]
    · simp [content, hffile]
  | some bytes =>
    by_cases hkeeps : s.Keeps bytes.length
    · obtain ⟨hffile, hfempty, hcore⟩ := flush_content s
      obtain ⟨hinfo, -, hfileEpoch, -, -, -, hclosed⟩ := core_inj hcore
      rw [hc] at hffile
      refine ⟨s.flush, dbSyncOutput_keeps w rotations hc hkeeps 1,
        ⟨hinfo.trans h.info, by rw [hclosed]; exact h.closed, ?_⟩, by simp [Opened, hffile]⟩
      intro bytes' hb
      rw [content, hffile, hfempty, Option.map_some, List.append_nil] at hb
      cases hb
      rw [hfileEpoch]
      exact h.open_ bytes hc
    · obtain ⟨s', hs', hr⟩ := dbSyncOutput_rotates w rotations hc hkeeps 0
      exact ⟨s', hs', h.rotated hc hr, by simp [Opened, hr.file]⟩

/-- A record is whole if it is a complete item. -/
def Op.Whole : Op → Prop
  | .record bs => Cbor.Item bs
  | _ => True

/-- Every operation succeeds and keeps the invariant. -/
theorem Ok.step (h : s.Ok attributes) (ho : s.Opened) (op : Op) (hop : op.Whole) :
    ∃ s', Backend.step w rotations op s = some s' ∧ s'.Ok attributes ∧ s'.Opened := by
  cases op with
  | record bs =>
    have hw := put_wrote w bs s
    obtain ⟨-, -, -, hpattern, -, -, -⟩ := core_inj hw.core_eq
    refine ⟨_, rfl, h.wrote hop hw, fun hnone => ?_⟩
    have hc := hw.content
    rw [content, hnone, Option.map_none, eq_comm, Option.map_eq_none_iff, content,
      Option.map_eq_none_iff] at hc
    rw [hpattern]
    exact ho hc
  | syncOutput => exact h.syncOutput w rotations ho
  | setEpoch epoch => exact ⟨_, rfl, ⟨h.info, h.closed, h.open_⟩, ho⟩

theorem Ok.run (ops : List Op) (h : s.Ok attributes) (ho : s.Opened)
    (hops : ∀ op ∈ ops, op.Whole) :
    ∃ s', Runs.run (Backend.step w rotations) ops s = some s' ∧ s'.Ok attributes ∧ s'.Opened := by
  induction ops generalizing s with
  | nil => exact ⟨s, rfl, h, ho⟩
  | cons op ops ih =>
    obtain ⟨s₁, hs₁, h₁, ho₁⟩ := h.step w rotations ho op (hops op (by simp))
    obtain ⟨s', hs', h', ho'⟩ := ih h₁ ho₁ fun o hmem => hops o (by simp [hmem])
    exact ⟨s', Runs.run_cons_eq_some.mpr ⟨s₁, hs₁, hs'⟩, h', ho'⟩

/-- The maker creates the first container. -/
theorem make_ok (maxFileSize targetBufferSize : Nat) (fileNamePattern : String)
    (attributes : Bytes) (epoch : Epoch) :
    ∃ s, make w rotations maxFileSize targetBufferSize fileNamePattern attributes epoch = some s ∧
      s.Ok attributes ∧ s.Opened := by
  by_cases hp : fileNamePattern.isEmpty = true
  · refine ⟨start maxFileSize targetBufferSize fileNamePattern attributes epoch, ?_,
      ⟨rfl, by simp [start], by simp [content, start]⟩, fun _ => hp⟩
    simp [make, rotate, doRotate, start, hp]
  · let t := (start maxFileSize targetBufferSize fileNamePattern attributes epoch).createContainer
      rotations
    obtain ⟨hfile, hempty, hcore⟩ := writeHeader_content w (s := t) rfl
    obtain ⟨hinfo, -, hfileEpoch, -, -, -, hclosed⟩ := core_inj hcore
    refine ⟨t.writeHeader w, ?_, ⟨hinfo, ?_, ?_⟩, ?_⟩
    · simp [make, rotate, doRotate, start, hp, t]
    · rw [hclosed]; simp [t, start, createContainer]
    · intro bytes hb
      rw [content, hfile, hempty, Option.map_some, List.append_nil] at hb
      cases hb
      exact ⟨[], by simp, by rw [hfileEpoch, List.flatten_nil, List.append_nil]; rfl⟩
    · rw [Opened, hfile]; simp

/-! ## The end -/

/-- The end of a sink does not fall into a rotation. -/
def EndsInPlace (s : Backend) : Prop := ∀ bytes ∈ s.content, s.Keeps (bytes.length + 1)

/-- A header without a break is not a container. -/
theorem header_not_wellFormed (epoch : Epoch) (attributes : Bytes) :
    ¬ WellFormed attributes (header epoch attributes) := by
  rintro ⟨epoch', records, -, h⟩
  have hends : ∃ front, header epoch attributes = front ++ [0x9f] :=
    ⟨(headerPieces epoch attributes).dropLast.flatten, by simp [header, headerPieces]⟩
  obtain ⟨front, hfront⟩ := hends
  rw [hfront] at h
  exact absurd (List.append_inj_right' h rfl) (by decide)

theorem release_closed {file : Bytes} (hfile : s.backingFile = some file) :
    s.release.closed = s.closed ++ [(s.currentRotation, file)] := by
  simp [release, closeFile, reportSize, hfile]

/-- The break of `finalize` is the only one exactly if it does not fall into a rotation. -/
theorem Ok.finalize_iff (h : s.Ok attributes) :
    ∃ s', finalize w rotations s = some s' ∧
      ((∀ c ∈ s'.closed, WellFormed attributes c.2) ↔ s.EndsInPlace) := by
  cases hfile : s.backingFile with
  | none =>
    refine ⟨s, by rw [finalize, hfile], iff_of_true h.closed fun bytes hb => ?_⟩
    simp [content, hfile] at hb
  | some file =>
    have hc : s.content = some (file ++ s.buffered) := by rw [content, hfile, Option.map_some]
    generalize file ++ s.buffered = bytes at hc
    obtain ⟨records, hrec, hbytes⟩ := h.open_ _ hc
    have hw := put_wrote w [0xff] s
    have hput := hw.content
    rw [hc, Option.map_some] at hput
    have hkeeps_iff : (s.put w [0xff]).Keeps (bytes ++ [0xff]).length ↔ s.EndsInPlace := by
      rw [keeps_break_iff, EndsInPlace, hc]
      simp
    have hfinalize : ∀ t, dbSyncOutput w rotations maxDepth (s.put w [0xff]) = some t →
        finalize w rotations s = some t.release := by
      intro t ht
      simp only [finalize, hfile, ht, Option.map_some]
    by_cases hkeeps : (s.put w [0xff]).Keeps (bytes ++ [0xff]).length
    · obtain ⟨hffile, -, hcore⟩ := flush_content (s.put w [0xff])
      obtain ⟨-, -, -, -, -, -, hfclosed⟩ := core_inj (hcore.trans hw.core_eq)
      rw [hput] at hffile
      refine ⟨_, hfinalize _ (dbSyncOutput_keeps w rotations hput hkeeps 1),
        iff_of_true ?_ (hkeeps_iff.mp hkeeps)⟩
      rw [release_closed hffile, hfclosed]
      intro c hmem
      rcases List.mem_append.mp hmem with hmem | hmem
      · exact h.closed c hmem
      · rw [List.mem_singleton.mp hmem, hbytes]
        exact ⟨s.fileEpoch, records, hrec, rfl⟩
    · obtain ⟨t, ht, hr⟩ := dbSyncOutput_rotates w rotations hput hkeeps 0
      refine ⟨_, hfinalize t ht, iff_of_false (fun hall => ?_) (mt hkeeps_iff.mpr hkeeps)⟩
      have hwf := hall (t.currentRotation, header _ _) (by
        rw [release_closed hr.file]
        exact List.mem_append_right _ (List.mem_singleton_self _))
      rw [core_inj hw.core_eq |>.1, h.info] at hwf
      exact header_not_wellFormed _ _ hwf

/-- Every closed container is well formed, provided that the end of the sink does not fall into a
rotation. -/
theorem containers_wellFormed_iff (maxFileSize targetBufferSize : Nat) (fileNamePattern : String)
    (attributes : Bytes) (epoch : Epoch) (ops : List Op) (hops : ∀ op ∈ ops, op.Whole) :
    ∃ s s', (make w rotations maxFileSize targetBufferSize fileNamePattern attributes epoch).bind
        (Runs.run (step w rotations) ops) = some s ∧ finalize w rotations s = some s' ∧
      ((∀ c ∈ s'.closed, WellFormed attributes c.2) ↔ s.EndsInPlace) := by
  obtain ⟨s₀, hs₀, h₀, ho₀⟩ :=
    make_ok w rotations maxFileSize targetBufferSize fileNamePattern attributes epoch
  obtain ⟨s, hs, h, -⟩ := h₀.run w rotations ops ho₀ hops
  obtain ⟨s', hs', hiff⟩ := h.finalize_iff w rotations
  exact ⟨s, s', by rw [hs₀]; exact hs, hs', hiff⟩

/-- Bytes that fit into the buffer are stored, others passed through. -/
def plainWriter : Writer where
  calls remaining _ bs := if bs.length ≤ remaining then [.store bs] else [.bulkWrite bs]
  bytes_eq remaining _ bs := by split_ifs <;> simp [Call.bytes]

theorem containers_wellFormed_iff_sample :
    Cbor.Item [0x82, 0x00, 0x01] ∧
    ∃ s s', (make plainWriter (· + 1) 1024 64 "log" [] ⟨5, 7⟩).bind
        (Runs.run (step plainWriter (· + 1)) [.record [0x82, 0x00, 0x01], .syncOutput]) = some s ∧
      finalize plainWriter (· + 1) s = some s' ∧
      ((∀ c ∈ s'.closed, WellFormed [] c.2) ↔ s.EndsInPlace) := by
  have hitem : Cbor.Item [0x82, 0x00, 0x01] := by decide
  refine ⟨hitem, containers_wellFormed_iff plainWriter (· + 1) 1024 64 "log" [] ⟨5, 7⟩ _ ?_⟩
  simpa [Op.Whole] using hitem

/-- An epoch that changes between the last record and the end: the file is closed with two breaks,
and a second one without any. -/
theorem containers_not_wellFormed :
    ¬ ∀ (w : Writer) (rotations : Nat → Nat) (maxFileSize targetBufferSize : Nat)
      (fileNamePattern : String) (attributes : Bytes) (epoch : Epoch) (ops : List Op),
      (∀ op ∈ ops, op.Whole) → ∀ s s',
      (make w rotations maxFileSize targetBufferSize fileNamePattern attributes epoch).bind
        (Runs.run (step w rotations) ops) = some s → finalize w rotations s = some s' →
      ∀ c ∈ s'.closed, WellFormed attributes c.2 := by
  intro h
  let made := make plainWriter (· + 1) 1024 64 "log" [] ⟨5, 7⟩
  let ops : List Op := [.record [0x82, 0x00, 0x01], .setEpoch ⟨6, 7⟩]
  have hops : ∀ op ∈ ops, op.Whole := by
    have hitem : Cbor.Item [0x82, 0x00, 0x01] := by decide
    simpa [ops, Op.Whole] using hitem
  have hrun : (made.bind (Runs.run (step plainWriter (· + 1)) ops)).any (fun s =>
      s.content.any fun bytes => ¬ s.Keeps (bytes.length + 1)) = true := by decide +kernel
  obtain ⟨s₀, hs₀, h₀, ho₀⟩ := make_ok plainWriter (· + 1) 1024 64 "log" [] ⟨5, 7⟩
  obtain ⟨s, hs, hok, -⟩ := h₀.run plainWriter (· + 1) ops ho₀ hops
  obtain ⟨s', hs', hiff⟩ := hok.finalize_iff plainWriter (· + 1)
  have hs₁ : made.bind (Runs.run (step plainWriter (· + 1)) ops) = some s := by
    simp only [made, hs₀, Option.bind_some, hs]
  have hends := hiff.mp (h _ _ _ _ _ _ _ _ hops s s' hs₁ hs')
  rw [hs₁, Option.any_some] at hrun
  cases hc : s.content with
  | none => simp [hc] at hrun
  | some bytes => simp [hc, hends bytes hc] at hrun

end Backend

end Deeplog.Sink

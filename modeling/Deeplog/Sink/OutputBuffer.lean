import Deeplog.Sink.Container

/-!
# The buffer of a file sink

`file_sink_backend` is a `dp::output_buffer` over an allocation of its own: the last `size` bytes
of the allocation are free, and what stands before them waits for the file. The bytes that wait
are known only through `size`, and a `resize` throws them away, so each of the three ways to make
room has to write them first.
-/

namespace Deeplog.Sink

open Cbor (Bytes)

/-- The page allocator. What is in the memory is not known. -/
structure Allocator where
  allocate : Nat → Bytes
  le_length : ∀ n, n ≤ (allocate n).length

/-- A write through the `dp::output_buffer`: a few bytes into the remaining space behind an
`ensure_size`, or a `bulk_write`. -/
inductive BufferWrite where
  | small (requestedSize : Nat) (bs : Bytes)
  | bulk (bs : Bytes)

def BufferWrite.bytes : BufferWrite → Bytes
  | .small _ bs | .bulk bs => bs

/-- A small write takes no more space than it has asked for, and asks for less than 4 GiB. -/
def BufferWrite.Fits : BufferWrite → Prop
  | .small requestedSize bs => bs.length ≤ requestedSize ∧ requestedSize < 2 ^ 32
  | .bulk _ => True

/-- How deeppack emits an item. -/
structure Emitter where
  writes : Bytes → List BufferWrite
  bytes_eq : ∀ item, (writes item).flatMap BufferWrite.bytes = item
  fits : ∀ item, ∀ write ∈ writes item, write.Fits

/-- `file_sink_backend`, while its file is open. -/
structure FileSinkBackend where
  backingFile : Bytes
  bufferAllocation : Bytes
  size : Nat
  targetBufferSize : Nat
  containerInfo : Bytes
  epoch : Epoch

namespace FileSinkBackend

/-- `buffer.first(buffer.size() - size())` -/
def pending (s : FileSinkBackend) : Bytes :=
  s.bufferAllocation.take (s.bufferAllocation.length - s.size)

/-- `mBackingFile.write`, for a handle opened in append mode. -/
def write (bs : Bytes) (s : FileSinkBackend) : FileSinkBackend :=
  { s with backingFile := s.backingFile ++ bs }

/-- `reset(mBufferAllocation.as_span())` -/
def reset (s : FileSinkBackend) : FileSinkBackend := { s with size := s.bufferAllocation.length }

/-- A copy to `data()`, and `commit_written`. There is no such step past the end of the buffer. -/
def store (bs : Bytes) (s : FileSinkBackend) : Option FileSinkBackend :=
  if bs.length ≤ s.size then
    some { s with
      bufferAllocation := s.pending ++ bs ++
        s.bufferAllocation.drop (s.bufferAllocation.length - s.size + bs.length)
      size := s.size - bs.length }
  else none

variable (alloc : Allocator) (emit : Emitter)

def resize (requestedSize : Nat) (s : FileSinkBackend) : FileSinkBackend :=
  { s with size := 0, bufferAllocation := alloc.allocate (requestedSize % 2 ^ 32) }

def doGrow (requestedSize : Nat) (s : FileSinkBackend) : FileSinkBackend :=
  let s := if s.size ≠ s.bufferAllocation.length then s.write s.pending else s
  let s := if s.bufferAllocation.length < requestedSize then s.resize alloc requestedSize else s
  s.reset

def doBulkWrite (src : Bytes) (s : FileSinkBackend) : Option FileSinkBackend :=
  if src.length < s.bufferAllocation.length / 2 then (s.write s.pending).reset.store src
  else some (s.write (s.pending ++ src)).reset

/-- `dp::output_buffer::ensure_size` -/
def ensureSize (requestedSize : Nat) (s : FileSinkBackend) : FileSinkBackend :=
  if s.size < requestedSize then s.doGrow alloc requestedSize else s

/-- `dp::output_buffer::bulk_write`, which fills the remaining space before it hands on the rest. -/
def bulkWrite (src : Bytes) (s : FileSinkBackend) : Option FileSinkBackend :=
  if src.length ≤ s.size then s.store src
  else (s.store (src.take s.size)).bind (doBulkWrite (src.drop s.size))

def put : BufferWrite → FileSinkBackend → Option FileSinkBackend
  | .small requestedSize bs, s => (s.ensureSize alloc requestedSize).store bs
  | .bulk bs, s => s.bulkWrite bs

/-- The writes of the header in `rotate`. -/
def headerWrites (epoch : Epoch) (attributes : Bytes) : List BufferWrite :=
  [.bulk magic] ++ emit.writes (Cbor.encodeHead 5 3) ++
    emit.writes [0x00] ++ emit.writes (Cbor.encodeInt 0) ++ -- version
    emit.writes (Cbor.encodeInt 4) ++ emit.writes epoch.encode ++
    emit.writes (Cbor.encodeInt 23) ++
    (if attributes = [] then emit.writes (Cbor.encodeHead 5 0) else [.bulk attributes]) ++
    emit.writes [0x9f]

/-- `rotate`, with the `do_rotate` that asks whether the file is empty. -/
def rotate (s : FileSinkBackend) : Option FileSinkBackend :=
  if s.backingFile.length = 0 then
    (Runs.run (put alloc) (headerWrites emit s.epoch s.containerInfo) s.reset).map fun s =>
      (s.write s.pending).reset
  else some s

def doSyncOutput (s : FileSinkBackend) : Option FileSinkBackend :=
  let s := if s.size ≠ s.bufferAllocation.length then s.write s.pending else s
  let s := if s.bufferAllocation.length ≠ s.targetBufferSize then s.resize alloc s.targetBufferSize
    else s
  s.reset.rotate alloc emit

/-- `make<file_sink_backend>`, where the file has been created. -/
def make (targetBufferSize : Nat) (attributes : Bytes) (epoch : Epoch) : Option FileSinkBackend :=
  let targetBufferSize := if 0 < targetBufferSize then targetBufferSize
    else Backend.defaultBufferSize
  let s : FileSinkBackend :=
    { backingFile := [], bufferAllocation := [], size := 0, targetBufferSize,
      containerInfo := attributes, epoch }
  (s.resize alloc targetBufferSize).rotate alloc emit

/-- A call of the sink. -/
inductive Call where
  | write (bufferWrite : BufferWrite)
  | syncOutput

def Call.bytes : Call → Bytes
  | .write bufferWrite => bufferWrite.bytes
  | .syncOutput => []

def Call.Fits : Call → Prop
  | .write bufferWrite => bufferWrite.Fits
  | .syncOutput => True

def step : Call → FileSinkBackend → Option FileSinkBackend
  | .write bufferWrite, s => s.put alloc bufferWrite
  | .syncOutput, s => s.doSyncOutput alloc emit

/-! ## What waits, and what is written -/

/-- The file and the bytes that wait for it are these. -/
structure Holds (s : FileSinkBackend) (bytes : Bytes) : Prop where
  size_le : s.size ≤ s.bufferAllocation.length
  content : s.backingFile ++ s.pending = bytes

variable {alloc : Allocator} {emit : Emitter} {s s' : FileSinkBackend} {bytes bs : Bytes}

@[simp] theorem reset_pending (s : FileSinkBackend) : s.reset.pending = [] := by
  simp [pending, reset]

@[simp] theorem reset_size (s : FileSinkBackend) : s.reset.size = s.bufferAllocation.length := rfl

@[simp] theorem reset_backingFile (s : FileSinkBackend) : s.reset.backingFile = s.backingFile := rfl

/-- Once everything is in the file, the buffer can start over. -/
theorem Holds.reset (h : s.backingFile = bytes) : s.reset.Holds bytes :=
  ⟨Nat.le_refl _, by simp [h]⟩

/-- What stands before the free space waits. -/
theorem pending_eq {front free : Bytes} (hmemory : s.bufferAllocation = front ++ free)
    (hfree : free.length = s.size) : s.pending = front := by
  rw [pending, hmemory, List.length_append, hfree, Nat.add_sub_cancel, List.take_left]

/-- A copy into the remaining space goes behind what waits there. -/
theorem Holds.store (h : s.Holds bytes) (hs : s.store bs = some s') :
    s'.Holds (bytes ++ bs) := by
  have hle := h.size_le
  rw [FileSinkBackend.store] at hs
  split_ifs at hs with hfits
  have hs := Option.some.inj hs
  have hmemory : s'.bufferAllocation = s.pending ++ bs ++
      s.bufferAllocation.drop (s.bufferAllocation.length - s.size + bs.length) := by rw [← hs]
  have hfree : (s.bufferAllocation.drop
      (s.bufferAllocation.length - s.size + bs.length)).length = s'.size := by
    have hsize : s'.size = s.size - bs.length := by rw [← hs]
    rw [List.length_drop, hsize]
    omega
  refine ⟨?_, ?_⟩
  · rw [hmemory, List.length_append, hfree]
    exact Nat.le_add_left _ _
  · have hfile : s'.backingFile = s.backingFile := by rw [← hs]
    rw [pending_eq hmemory hfree, hfile, ← h.content, List.append_assoc]

theorem store_of_fits (h : bs.length ≤ s.size) : ∃ s', s.store bs = some s' := by
  rw [store, if_pos h]
  exact ⟨_, rfl⟩

/-- `do_grow` and `do_sync_output` begin with this: where nothing waits, nothing is written. -/
theorem Holds.flush (h : s.Holds bytes) :
    (if s.size ≠ s.bufferAllocation.length then s.write s.pending else s).backingFile = bytes := by
  split_ifs with hsize
  · exact h.content
  · have hnothing : s.pending = [] := by simp [pending, not_not.mp hsize]
    simpa [hnothing] using h.content

theorem Holds.doGrow (h : s.Holds bytes) (requestedSize : Nat) :
    (s.doGrow alloc requestedSize).Holds bytes := by
  refine Holds.reset ?_
  have hflush := h.flush
  split_ifs at hflush ⊢ <;> exact hflush

/-- Requests below 4 GiB are met. -/
theorem doGrow_size {requestedSize : Nat} (h : requestedSize < 2 ^ 32) (s : FileSinkBackend) :
    requestedSize ≤ (s.doGrow alloc requestedSize).size := by
  have hallocated := alloc.le_length requestedSize
  simp only [FileSinkBackend.doGrow, reset_size]
  generalize (if s.size ≠ s.bufferAllocation.length then s.write s.pending else s) = t
  split_ifs with hsmall
  · rwa [resize, Nat.mod_eq_of_lt h]
  · exact Nat.not_lt.mp hsmall

theorem Holds.ensureSize (h : s.Holds bytes) (requestedSize : Nat) :
    (s.ensureSize alloc requestedSize).Holds bytes := by
  rw [FileSinkBackend.ensureSize]
  split_ifs
  · exact h.doGrow requestedSize
  · exact h

theorem ensureSize_size {requestedSize : Nat} (h : requestedSize < 2 ^ 32) (s : FileSinkBackend) :
    requestedSize ≤ (s.ensureSize alloc requestedSize).size := by
  rw [FileSinkBackend.ensureSize]
  split_ifs with hsize
  · exact doGrow_size h s
  · exact Nat.not_lt.mp hsize

/-- Short data are copied to the front of the buffer that has just been written, longer ones go to
the file right behind it. -/
theorem Holds.doBulkWrite (h : s.Holds bytes) (src : Bytes) :
    ∃ s', s.doBulkWrite src = some s' ∧ s'.Holds (bytes ++ src) := by
  rw [FileSinkBackend.doBulkWrite]
  split_ifs with hshort
  · have hflushed : (s.write s.pending).reset.Holds bytes := Holds.reset h.content
    have hfits : src.length ≤ (s.write s.pending).reset.size := by
      change src.length ≤ s.bufferAllocation.length
      omega
    obtain ⟨s', hs'⟩ := store_of_fits hfits
    exact ⟨s', hs', hflushed.store hs'⟩
  · refine ⟨_, rfl, Holds.reset ?_⟩
    rw [← h.content, List.append_assoc]
    rfl

theorem Holds.bulkWrite (h : s.Holds bytes) (src : Bytes) :
    ∃ s', s.bulkWrite src = some s' ∧ s'.Holds (bytes ++ src) := by
  rw [FileSinkBackend.bulkWrite]
  split_ifs with hfits
  · obtain ⟨s', hs'⟩ := store_of_fits hfits
    exact ⟨s', hs', h.store hs'⟩
  · have htake : (src.take s.size).length ≤ s.size := by simp
    obtain ⟨s₁, hs₁⟩ := store_of_fits htake
    obtain ⟨s', hs', hholds⟩ := (h.store hs₁).doBulkWrite (src.drop s.size)
    refine ⟨s', by rw [hs₁]; exact hs', ?_⟩
    rwa [List.append_assoc, List.take_append_drop] at hholds

/-- Whatever a write does to the buffer, its bytes come next. -/
theorem Holds.put (h : s.Holds bytes) {write : BufferWrite} (hs : s.put alloc write = some s') :
    s'.Holds (bytes ++ write.bytes) := by
  cases write with
  | small requestedSize bs => exact (h.ensureSize requestedSize).store hs
  | bulk bs =>
    obtain ⟨t, ht, hholds⟩ := h.bulkWrite bs
    cases ht.symm.trans hs
    exact hholds

theorem Holds.put_of_fits (alloc : Allocator) (h : s.Holds bytes) {write : BufferWrite}
    (hfits : write.Fits) :
    ∃ s', s.put alloc write = some s' := by
  cases write with
  | small requestedSize bs =>
    exact store_of_fits (hfits.1.trans (ensureSize_size hfits.2 s))
  | bulk bs =>
    obtain ⟨s', hs', -⟩ := h.bulkWrite bs
    exact ⟨s', hs'⟩

theorem Holds.puts (alloc : Allocator) (writes : List BufferWrite) (h : s.Holds bytes)
    (hfits : ∀ write ∈ writes, write.Fits) :
    ∃ s', Runs.run (FileSinkBackend.put alloc) writes s = some s' ∧
      s'.Holds (bytes ++ writes.flatMap BufferWrite.bytes) := by
  induction writes generalizing s bytes with
  | nil => exact ⟨s, rfl, by simpa using h⟩
  | cons write writes ih =>
    obtain ⟨hwrite, hwrites⟩ := List.forall_mem_cons.mp hfits
    obtain ⟨s₁, hs₁⟩ := h.put_of_fits alloc hwrite
    obtain ⟨s', hrun, hholds⟩ := ih (h.put hs₁) hwrites
    refine ⟨s', Runs.run_cons_eq_some.mpr ⟨s₁, hs₁, hrun⟩, ?_⟩
    rwa [List.flatMap_cons, ← List.append_assoc]

/-! ## The header -/

theorem headerWrites_bytes (emit : Emitter) (epoch : Epoch) (attributes : Bytes) :
    (headerWrites emit epoch attributes).flatMap BufferWrite.bytes =
      Backend.header epoch attributes := by
  have hattributes : (if attributes = [] then emit.writes (Cbor.encodeHead 5 0)
      else [.bulk attributes]).flatMap BufferWrite.bytes =
      if attributes = [] then Cbor.encodeHead 5 0 else attributes := by
    split_ifs
    · exact emit.bytes_eq _
    · simp [BufferWrite.bytes]
  simp only [headerWrites, List.flatMap_append, emit.bytes_eq, hattributes]
  simp [Backend.header, Backend.headerPieces, BufferWrite.bytes]

theorem headerWrites_fits (emit : Emitter) (epoch : Epoch) (attributes : Bytes) :
    ∀ write ∈ headerWrites emit epoch attributes, write.Fits := by
  intro write hwrite
  simp only [headerWrites, List.mem_append, List.mem_singleton] at hwrite
  rcases hwrite with (((((((rfl | h) | h) | h) | h) | h) | h) | h) | h
  case inl.inr =>
    split_ifs at h
    · exact emit.fits _ write h
    · cases List.mem_singleton.mp h
      trivial
  case inl.inl.inl.inl.inl.inl.inl.inl => trivial
  all_goals exact emit.fits _ write h

/-- An empty file receives its header. -/
theorem rotate_empty (h : s.backingFile = []) :
    ∃ s', s.rotate alloc emit = some s' ∧ s'.Holds (Backend.header s.epoch s.containerInfo) := by
  obtain ⟨t, hrun, hholds⟩ := (Holds.reset h).puts alloc _
    (headerWrites_fits emit s.epoch s.containerInfo)
  rw [List.nil_append, headerWrites_bytes] at hholds
  refine ⟨(t.write t.pending).reset, ?_, Holds.reset hholds.content⟩
  rw [rotate, if_pos (by rw [h]; rfl), hrun, Option.map_some]

/-- A synchronised file holds everything, and has no reason to rotate. -/
theorem Holds.doSyncOutput (alloc : Allocator) (emit : Emitter) (h : s.Holds bytes)
    (hne : bytes ≠ []) :
    ∃ s', s.doSyncOutput alloc emit = some s' ∧ s'.Holds bytes ∧ s'.pending = [] := by
  have hflush := h.flush
  simp only [FileSinkBackend.doSyncOutput]
  generalize (if s.size ≠ s.bufferAllocation.length then s.write s.pending else s) = t at hflush ⊢
  generalize hu : (if t.bufferAllocation.length ≠ t.targetBufferSize then
    t.resize alloc t.targetBufferSize else t) = u
  have hfile : u.backingFile = bytes := by
    rw [← hu]
    split_ifs <;> exact hflush
  have hlength : ¬u.reset.backingFile.length = 0 := by
    rw [reset_backingFile, hfile]
    exact fun hzero => hne (List.eq_nil_of_length_eq_zero hzero)
  refine ⟨u.reset, ?_, Holds.reset hfile, reset_pending u⟩
  rw [rotate, if_neg hlength]

theorem make_holds (alloc : Allocator) (emit : Emitter) (targetBufferSize : Nat)
    (attributes : Bytes) (epoch : Epoch) :
    ∃ s, make alloc emit targetBufferSize attributes epoch = some s ∧
      s.Holds (Backend.header epoch attributes) := rotate_empty rfl

/-! ## Runs -/

theorem Holds.step (h : s.Holds bytes) (hne : bytes ≠ []) {call : Call}
    (hs : step alloc emit call s = some s') :
    s'.Holds (bytes ++ call.bytes) ∧ (call = .syncOutput → s'.pending = []) := by
  cases call with
  | write bufferWrite => exact ⟨h.put hs, by simp⟩
  | syncOutput =>
    obtain ⟨t, ht, hholds, hpending⟩ := h.doSyncOutput alloc emit hne
    cases ht.symm.trans hs
    exact ⟨by simpa [Call.bytes] using hholds, fun _ => hpending⟩

theorem Holds.step_of_fits (alloc : Allocator) (emit : Emitter) (h : s.Holds bytes)
    (hne : bytes ≠ []) {call : Call} (hfits : call.Fits) :
    ∃ s', FileSinkBackend.step alloc emit call s = some s' := by
  cases call with
  | write bufferWrite => exact h.put_of_fits alloc hfits
  | syncOutput =>
    obtain ⟨s', hs', -⟩ := h.doSyncOutput alloc emit hne
    exact ⟨s', hs'⟩

theorem Holds.run {calls : List Call} (h : s.Holds bytes) (hne : bytes ≠ [])
    (hrun : Runs.run (FileSinkBackend.step alloc emit) calls s = some s') :
    s'.Holds (bytes ++ calls.flatMap Call.bytes) ∧
      (calls.getLast? = some .syncOutput → s'.pending = []) := by
  induction calls generalizing s bytes with
  | nil =>
    cases hrun
    exact ⟨by simpa using h, by simp⟩
  | cons call calls ih =>
    obtain ⟨s₁, hs₁, hrun⟩ := Runs.run_cons_eq_some.mp hrun
    obtain ⟨h₁, hsync⟩ := h.step hne hs₁
    obtain ⟨h', hlast⟩ := ih h₁ (List.append_ne_nil_of_left_ne_nil hne _) hrun
    refine ⟨by rwa [List.flatMap_cons, ← List.append_assoc], ?_⟩
    cases calls with
    | nil =>
      cases hrun
      exact fun heq => hsync (Option.some.inj heq)
    | cons next calls => rwa [List.getLast?_cons_cons]

theorem Holds.run_of_fits {calls : List Call} (h : s.Holds bytes) (hne : bytes ≠ [])
    (hfits : ∀ call ∈ calls, call.Fits) :
    ∃ s', Runs.run (FileSinkBackend.step alloc emit) calls s = some s' := by
  induction calls generalizing s bytes with
  | nil => exact ⟨s, rfl⟩
  | cons call calls ih =>
    obtain ⟨hcall, hcalls⟩ := List.forall_mem_cons.mp hfits
    obtain ⟨s₁, hs₁⟩ := h.step_of_fits alloc emit hne hcall
    obtain ⟨s', hrun⟩ := ih (h.step hne hs₁).1 (List.append_ne_nil_of_left_ne_nil hne _) hcalls
    exact ⟨s', Runs.run_cons_eq_some.mpr ⟨s₁, hs₁, hrun⟩⟩

/-- Nothing is lost and nothing comes out of order, whatever the size of the buffer and of the
writes. -/
theorem output_conserved (alloc : Allocator) (emit : Emitter) (targetBufferSize : Nat)
    (attributes : Bytes) (epoch : Epoch) :
    ∃ made, make alloc emit targetBufferSize attributes epoch = some made ∧
      ∀ calls : List Call,
        (∀ s, Runs.run (step alloc emit) calls made = some s →
          s.backingFile ++ s.pending =
            Backend.header epoch attributes ++ calls.flatMap Call.bytes ∧
          (calls.getLast? = some .syncOutput → s.pending = [])) ∧
        ((∀ call ∈ calls, call.Fits) →
          ∃ s, Runs.run (step alloc emit) calls made = some s) := by
  obtain ⟨made, hmake, hmade⟩ := make_holds alloc emit targetBufferSize attributes epoch
  have hne := Backend.header_ne_nil epoch attributes
  refine ⟨made, hmake, fun calls => ⟨fun s hrun => ?_, hmade.run_of_fits hne⟩⟩
  obtain ⟨hholds, hsync⟩ := hmade.run hne hrun
  exact ⟨hholds.content, hsync⟩

/-- Zeroed pages, and items that are emitted byte by byte. -/
def zeroPages : Allocator where
  allocate n := List.replicate n 0
  le_length _ := List.length_replicate.ge

theorem bytewise_bytes (item : Bytes) :
    (item.map fun b => BufferWrite.small 1 [b]).flatMap BufferWrite.bytes = item := by
  simp [List.flatMap_map, BufferWrite.bytes]

theorem bytewise_fits (item : Bytes) :
    ∀ write ∈ item.map fun b => BufferWrite.small 1 [b], write.Fits := by
  simp [BufferWrite.Fits]

def bytewise : Emitter where
  writes item := item.map fun b => .small 1 [b]
  bytes_eq := bytewise_bytes
  fits := bytewise_fits

/-- A bulk write that fills the buffer and goes on in an emptied one. -/
example : ((make zeroPages bytewise 8 [] ⟨5, 7⟩).bind (Runs.run (step zeroPages bytewise)
    [.write (.small 9 [1, 2]), .write (.bulk [3, 4, 5, 6, 7, 8, 9, 10, 11])])).map
      (fun s => (s.backingFile.drop 26, s.pending)) =
    some ([1, 2, 3, 4, 5, 6, 7, 8, 9], [10, 11]) := by decide +kernel

/-- The call of the backend that keeps its buffer as a list of bytes. -/
def Call.fileOp : Call → Backend.FileOp
  | .write bufferWrite => .messages [bufferWrite.bytes]
  | .syncOutput => .syncOutput

theorem fileOp_bytes (calls : List Call) :
    ((calls.map Call.fileOp).flatMap Backend.FileOp.batch).flatten = calls.flatMap Call.bytes := by
  induction calls with
  | nil => rfl
  | cons call calls ih =>
    cases call <;> simp_all [Call.fileOp, Backend.FileOp.batch, Call.bytes]

/-- That backend holds the same. -/
theorem run_content (w : Writer) {targetBufferSize : Nat} {attributes : Bytes} {epoch : Epoch}
    {calls : List Call} {s : FileSinkBackend}
    (hrun : (make alloc emit targetBufferSize attributes epoch).bind
      (Runs.run (step alloc emit) calls) = some s) :
    ∃ t, (Backend.makeFile w targetBufferSize attributes epoch).bind
        (Runs.run (Backend.fileStep w) (calls.map Call.fileOp)) = some t ∧
      t.content = some (s.backingFile ++ s.pending) := by
  obtain ⟨made, hmake, hmade⟩ := make_holds alloc emit targetBufferSize attributes epoch
  rw [hmake, Option.bind_some] at hrun
  have hne := Backend.header_ne_nil epoch attributes
  obtain ⟨t₀, hmakeFile, h₀⟩ := Backend.makeFile_contains (w := w) targetBufferSize attributes epoch
  obtain ⟨t, htrun, ht⟩ := h₀.run (w := w) (calls.map Call.fileOp) hne
  refine ⟨t, by rw [hmakeFile]; exact htrun, ?_⟩
  rw [ht.content, (hmade.run hne hrun).1.content, fileOp_bytes]

end FileSinkBackend

end Deeplog.Sink

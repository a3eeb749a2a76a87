import Deeplog.Database.Interleaving

/-!
# Handles of interleaving streams

The two handles move the blocks of a stream through a buffer. The writer knows the index of the
block that it is filling, the reader that of the block that it will ask for; both go on to the next
one when a byte is wanted and the chunk is used up. A writer that has been constructed without a
buffer gets one with its first byte, and has nothing to write before that.
-/

namespace Deeplog.Database

/-- The first `n` bytes of a buffer. -/
def firstBytes (buffer : Nat → UInt8) (n : Nat) : Bytes := (List.range n).map buffer

/-! ## Output -/

/-- `interleaving_output_stream_handle` with the state of its base: the size of the chunk that is
being filled, what has been written of it, and what may still be acquired. -/
structure OutputStream where
  dataSink : File
  streamSelector : Bool
  indexPosition : Nat
  bufferAllocation : Option (Nat → UInt8)
  writeArea : Nat
  written : Nat
  remaining : Nat

namespace OutputStream

/-- The public constructor. -/
def construct (dataSink : File) (streamSelector : Bool) (maxSize : Nat) : OutputStream where
  dataSink := dataSink
  streamSelector := streamSelector
  indexPosition := 0
  bufferAllocation := none
  writeArea := 0
  written := 0
  remaining := maxSize

/-- The factory `interleaving_output_stream`, which has pages allocated. -/
def interleavingOutputStream (pages : Nat → UInt8) (dataSink : File) (streamSelector : Bool)
    (maxSize : Nat) : OutputStream where
  dataSink := dataSink
  streamSelector := streamSelector
  indexPosition := 0
  bufferAllocation := some pages
  writeArea := min maxSize (indexToBlockSize 0)
  written := 0
  remaining := maxSize - min maxSize (indexToBlockSize 0)

/-- `write_current_chunk`. A buffer that has not been allocated is not as long as the block. -/
def writeCurrentChunk (s : OutputStream) : Option File :=
  s.bufferAllocation.map fun buffer =>
    s.dataSink.write (indexToBlockOffset s.indexPosition s.streamSelector)
      (firstBytes buffer (indexToBlockSize s.indexPosition))

/-- `std::memset` of the next write area. -/
def zeroed (buffer : Nat → UInt8) (n : Nat) : Nat → UInt8 := fun i => if i < n then 0 else buffer i

/-- `acquire_next_chunk_impl` -/
def acquireNextChunkImpl (pages : Nat → UInt8) (s : OutputStream) : Option OutputStream :=
  match s.bufferAllocation with
  | some buffer => s.writeCurrentChunk.map fun dataSink =>
    { s with
      dataSink
      indexPosition := s.indexPosition + 1
      bufferAllocation := some (zeroed buffer (indexToBlockSize (s.indexPosition + 1))) }
  | none => some
    { s with bufferAllocation := some (zeroed pages (indexToBlockSize s.indexPosition)) }

/-- The base asks for a chunk as long as something remains, and takes no more of it. -/
def acquireNextChunk (pages : Nat → UInt8) (s : OutputStream) : Option OutputStream :=
  if s.remaining = 0 then none
  else (s.acquireNextChunkImpl pages).map fun s =>
    let chunk := min (indexToBlockSize s.indexPosition) s.remaining
    { s with writeArea := chunk, written := 0, remaining := s.remaining - chunk }

def store (value : UInt8) (s : OutputStream) : OutputStream :=
  { s with
    bufferAllocation := s.bufferAllocation.map (Function.update · s.written value)
    written := s.written + 1 }

/-- Acquired chunks are filled in order. -/
def put (pages : Nat → UInt8) (value : UInt8) (s : OutputStream) : Option OutputStream :=
  if s.written < s.writeArea then some (s.store value)
  else (s.acquireNextChunk pages).map (store value)

def write (pages : Nat → UInt8) : Bytes → OutputStream → Option OutputStream
  | [], s => some s
  | value :: bs, s => (s.put pages value).bind (write pages bs)

def writes (pages : Nat → UInt8) : List Bytes → OutputStream → Option OutputStream
  | [], s => some s
  | bs :: pieces, s => (s.write pages bs).bind (writes pages pieces)

/-- `finalize`: the file, if there is something to write the last chunk from. -/
def finalize (s : OutputStream) : Option File := s.writeCurrentChunk

end OutputStream

/-! ## Input -/

/-- `interleaving_input_stream_handle` with the state of its base: what is left of the chunk, and
what may still be acquired. -/
structure InputStream where
  dataSource : File
  streamSelector : Bool
  indexPosition : Nat
  readArea : Bytes
  remaining : Nat

namespace InputStream

/-- The public constructor. -/
def construct (dataSource : File) (streamSelector : Bool) (maxSize : Nat) : InputStream :=
  ⟨dataSource, streamSelector, 0, [], maxSize⟩

/-- The factory `interleaving_input_stream`, which reads the first block. -/
def interleavingInputStream (dataSource : File) (streamSelector : Bool) (maxSize : Nat) :
    Option InputStream :=
  (readChunk dataSource 0 streamSelector).map fun chunk =>
    let initialUsage := min maxSize (indexToBlockSize 0)
    ⟨dataSource, streamSelector, 1, chunk.take initialUsage, maxSize - initialUsage⟩

/-- `acquire_next_chunk_impl`, and what the base takes of the chunk. -/
def acquireNextChunk (s : InputStream) : Option InputStream :=
  if s.remaining = 0 then none
  else (readChunk s.dataSource s.indexPosition s.streamSelector).map fun chunk =>
    { s with
      indexPosition := s.indexPosition + 1
      readArea := chunk.take s.remaining
      remaining := s.remaining - (chunk.take s.remaining).length }

/-- The next byte, of the chunk at hand or of the next one. -/
def get (s : InputStream) : Option (UInt8 × InputStream) :=
  match s.readArea with
  | value :: readArea => some (value, { s with readArea })
  | [] => s.acquireNextChunk.bind fun s =>
    s.readArea.head?.map fun value => (value, { s with readArea := s.readArea.tail })

/-- Acquired chunks are drained in order. -/
def read : Nat → InputStream → Option (Bytes × InputStream)
  | 0, s => some ([], s)
  | n + 1, s => s.get.bind fun (value, s) => (s.read n).map fun (bs, s) => (value :: bs, s)

end InputStream

/-! ## Tiling -/

/-- The blocks cover the file behind the coordination area without gaps, each place once. -/
theorem blocks_tile {pos : Nat} (h : 2 * pageSize ≤ pos) : ∃! block : Nat × Bool,
    indexToBlockOffset block.1 block.2 ≤ pos ∧
      pos < indexToBlockOffset block.1 block.2 + indexToBlockSize block.1 := by
  have hstart : indexToBlockOffset 0 false ≤ pos := h
  have hbeyond : ∃ idx, pos < indexToBlockOffset (idx + 1) false :=
    ⟨pos, Nat.lt_of_lt_of_le (Nat.lt_succ_self pos) (index_le_blockOffset _)⟩
  -- the last index that begins in front of the position
  have hidx : ∃ idx, indexToBlockOffset idx false ≤ pos ∧
      pos < indexToBlockOffset (idx + 1) false := by
    refine ⟨Nat.find hbeyond, ?_, Nat.find_spec hbeyond⟩
    cases hfind : Nat.find hbeyond with
    | zero => exact hstart
    | succ idx => exact Nat.le_of_not_lt (Nat.find_min hbeyond (hfind ▸ Nat.lt_succ_self idx))
  obtain ⟨idx, hlow, hhigh⟩ := hidx
  have heven := blockOffset_false idx
  have hodd := blockOffset_true idx
  have hexists : ∃ block : Nat × Bool, indexToBlockOffset block.1 block.2 ≤ pos ∧
      pos < indexToBlockOffset block.1 block.2 + indexToBlockSize block.1 := by
    by_cases hside : pos < indexToBlockOffset idx true
    · exact ⟨(idx, false), hlow, heven.symm ▸ hside⟩
    · exact ⟨(idx, true), Nat.le_of_not_lt hside, hodd.symm ▸ hhigh⟩
  obtain ⟨block, hblock⟩ := hexists
  refine ⟨block, hblock, fun other hother => ?_⟩
  by_contra hne
  have hdisjoint := blocks_disjoint (not_and_or.mp fun h => hne (Prod.ext h.1 h.2))
  have := hblock
  have := hother
  omega

/-! ## Writing -/

section Writing

variable {f : File} {odd : Bool} {maxSize i : Nat} {bs : Bytes} {cs : List Bytes} {c : Bytes}
  {pages : Nat → UInt8}

theorem length_firstBytes (buffer : Nat → UInt8) (n : Nat) : (firstBytes buffer n).length = n := by
  simp [firstBytes]

theorem firstBytes_update (buffer : Nat → UInt8) (n : Nat) (value : UInt8) :
    firstBytes (Function.update buffer n value) (n + 1) = firstBytes buffer n ++ [value] := by
  simp only [firstBytes, List.range_succ, List.map_append, List.map_singleton, Function.update_self]
  refine congrArg (· ++ [value]) (List.map_congr_left fun i hi => Function.update_of_ne ?_ _ _)
  exact Nat.ne_of_lt (List.mem_range.mp hi)

theorem firstBytes_take (buffer : Nat → UInt8) {m n : Nat} (h : m ≤ n) :
    (firstBytes buffer n).take m = firstBytes buffer m := by
  rw [firstBytes, firstBytes, ← List.map_take, List.take_range, Nat.min_eq_left h]

theorem writeChunks_append (f : File) (odd : Bool) (i : Nat) (cs : List Bytes) (c : Bytes) :
    writeChunks f odd i (cs ++ [c]) =
      (writeChunks f odd i cs).write (indexToBlockOffset (i + cs.length) odd) c := by
  induction cs generalizing f i with
  | nil => rfl
  | cons d cs ih =>
    rw [List.cons_append, writeChunks, ih, writeChunks, List.length_cons, Nat.add_right_comm i 1,
      Nat.add_assoc]

theorem Full.append (h : Full i cs) (hc : c.length = indexToBlockSize (i + cs.length)) :
    Full i (cs ++ [c]) := by
  induction cs generalizing i with
  | nil => exact ⟨hc, trivial⟩
  | cons d cs ih =>
    exact ⟨h.1, ih h.2 (by rw [hc, List.length_cons, Nat.add_right_comm i 1, Nat.add_assoc])⟩

namespace OutputStream

/-- The state of a writer that has been given the bytes `bs`: the blocks `cs` have been written, the
rest of the bytes is in the buffer. -/
structure Sound (f : File) (odd : Bool) (maxSize : Nat) (cs : List Bytes) (bs : Bytes)
    (s : OutputStream) : Prop where
  selector : s.streamSelector = odd
  full : Full 0 cs
  file : s.dataSink = writeChunks f odd 0 cs
  index : s.indexPosition = cs.length
  unused : s.bufferAllocation = none → cs = [] ∧ bs = [] ∧ s.writeArea = 0
  bytes : ∀ buffer, s.bufferAllocation = some buffer →
    bs = cs.flatten ++ firstBytes buffer s.written
  written_le : s.written ≤ s.writeArea
  area_le : s.writeArea ≤ indexToBlockSize s.indexPosition
  whole : s.bufferAllocation ≠ none → s.writeArea = indexToBlockSize s.indexPosition ∨
    s.remaining = 0
  size : cs.flatten.length + s.writeArea + s.remaining = maxSize

theorem sound_construct (f : File) (odd : Bool) (maxSize : Nat) :
    (construct f odd maxSize).Sound f odd maxSize [] [] where
  selector := rfl
  full := trivial
  file := rfl
  index := rfl
  unused _ := ⟨rfl, rfl, rfl⟩
  bytes := nofun
  written_le := Nat.le_refl 0
  area_le := Nat.zero_le _
  whole := fun h => absurd rfl h
  size := Nat.zero_add _

theorem sound_interleavingOutputStream (pages : Nat → UInt8) (f : File) (odd : Bool)
    (maxSize : Nat) : (interleavingOutputStream pages f odd maxSize).Sound f odd maxSize [] [] where
  selector := rfl
  full := trivial
  file := rfl
  index := rfl
  unused := nofun
  bytes := fun _ h => rfl
  written_le := Nat.zero_le _
  area_le := Nat.min_le_right _ _
  whole := fun _ => by simp only [interleavingOutputStream]; omega
  size := by simp only [interleavingOutputStream]; simp

variable {s s' : OutputStream}

theorem Sound.length_eq (h : s.Sound f odd maxSize cs bs) :
    bs.length = cs.flatten.length + s.written := by
  cases hbuffer : s.bufferAllocation with
  | none =>
    obtain ⟨rfl, rfl, harea⟩ := h.unused hbuffer
    have := h.written_le
    simp only [List.flatten_nil, List.length_nil]
    omega
  | some buffer => rw [h.bytes buffer hbuffer, List.length_append, length_firstBytes]

theorem Sound.store (h : s.Sound f odd maxSize cs bs) (hroom : s.written < s.writeArea)
    (value : UInt8) : (s.store value).Sound f odd maxSize cs (bs ++ [value]) := by
  cases hbuffer : s.bufferAllocation with
  | none =>
    obtain ⟨-, -, harea⟩ := h.unused hbuffer
    omega
  | some buffer =>
    refine { h with unused := ?_, bytes := ?_, written_le := hroom, whole := fun _ => ?_ }
    · rw [OutputStream.store, hbuffer]
      nofun
    · rw [OutputStream.store, hbuffer]
      rintro _ ⟨⟩
      rw [firstBytes_update, ← List.append_assoc, h.bytes buffer hbuffer]
    · exact h.whole (by simp [hbuffer])

/-- A chunk that has been filled is written as a block, and there is room in the next one. -/
theorem Sound.acquireNextChunk (h : s.Sound f odd maxSize cs bs) (pages : Nat → UInt8)
    (hfilled : ¬s.written < s.writeArea)
    (hmore : s.remaining ≠ 0) : ∃ s' cs', s.acquireNextChunk pages = some s' ∧
      s'.Sound f odd maxSize cs' bs ∧ s'.written < s'.writeArea := by
  have hpos := blockSize_pos s.indexPosition
  have hpos' := blockSize_pos (s.indexPosition + 1)
  have hsize := h.size
  have hfull : s.written = s.writeArea := Nat.le_antisymm h.written_le (Nat.le_of_not_lt hfilled)
  rw [OutputStream.acquireNextChunk, if_neg hmore, acquireNextChunkImpl]
  cases hbuffer : s.bufferAllocation with
  | none =>
    obtain ⟨rfl, rfl, harea⟩ := h.unused hbuffer
    refine ⟨_, [], rfl, ⟨h.selector, h.full, h.file, h.index, nofun, fun _ _ => rfl, Nat.zero_le _,
      Nat.min_le_left _ _, fun _ => ?_, ?_⟩, ?_⟩
    all_goals simp only [List.flatten_nil, List.length_nil] at hsize ⊢
    all_goals omega
  | some buffer =>
    have hwhole := (h.whole (by simp [hbuffer])).resolve_right hmore
    have hblock : firstBytes buffer (indexToBlockSize s.indexPosition) =
        firstBytes buffer s.written := by rw [hfull, hwhole]
    have hlen := length_firstBytes buffer (indexToBlockSize s.indexPosition)
    rw [writeCurrentChunk, hbuffer]
    refine ⟨_, cs ++ [firstBytes buffer (indexToBlockSize s.indexPosition)], rfl,
      ⟨h.selector, h.full.append (by rw [hlen, h.index, Nat.zero_add]), ?_, ?_, nofun, ?_,
        Nat.zero_le _, Nat.min_le_left _ _, fun _ => ?_, ?_⟩, ?_⟩
    · rw [writeChunks_append, Nat.zero_add, ← h.index, h.file, h.selector]
    · rw [List.length_append, List.length_singleton, h.index]
    · rintro _ ⟨⟩
      rw [h.bytes buffer hbuffer, hblock]
      simp [firstBytes]
    · dsimp only
      omega
    · simp only [List.flatten_append, List.flatten_singleton, List.length_append, hlen]
      omega
    · dsimp only
      omega

theorem Sound.put (h : s.Sound f odd maxSize cs bs) (value : UInt8) :
    (bs.length < maxSize ∧ ∃ s' cs', s.put pages value = some s' ∧
      s'.Sound f odd maxSize cs' (bs ++ [value])) ∨
    (maxSize ≤ bs.length ∧ s.put pages value = none) := by
  have hlen := h.length_eq
  have hsize := h.size
  rw [OutputStream.put]
  by_cases hroom : s.written < s.writeArea
  · rw [if_pos hroom]
    exact .inl ⟨by omega, _, cs, rfl, h.store hroom value⟩
  · rw [if_neg hroom]
    have hle := h.written_le
    by_cases hmore : s.remaining = 0
    · rw [OutputStream.acquireNextChunk, if_pos hmore]
      exact .inr ⟨by omega, rfl⟩
    · obtain ⟨s', cs', hacquire, hsound, hroom'⟩ := h.acquireNextChunk pages hroom hmore
      rw [hacquire]
      exact .inl ⟨by omega, _, cs', rfl, hsound.store hroom' value⟩

theorem Sound.length_le (h : s.Sound f odd maxSize cs bs) : bs.length ≤ maxSize := by
  have := h.length_eq
  have := h.written_le
  have := h.size
  omega

theorem Sound.write (h : s.Sound f odd maxSize cs bs) (more : Bytes) :
    (bs.length + more.length ≤ maxSize ∧ ∃ s' cs', s.write pages more = some s' ∧
      s'.Sound f odd maxSize cs' (bs ++ more)) ∨
    (maxSize < bs.length + more.length ∧ s.write pages more = none) := by
  induction more generalizing s cs bs with
  | nil => exact .inl ⟨h.length_le, s, cs, rfl, by rwa [List.append_nil]⟩
  | cons value more ih =>
    rw [OutputStream.write, List.length_cons]
    rcases h.put value with ⟨-, s', cs', hput, hsound⟩ | ⟨hfull, hput⟩
    · rw [hput, Option.bind_some]
      have hrest := ih hsound
      rw [List.length_append, List.length_singleton, List.append_assoc, Nat.add_assoc,
        Nat.add_comm 1] at hrest
      exact hrest
    · rw [hput]
      exact .inr ⟨by omega, rfl⟩

theorem Sound.writes (h : s.Sound f odd maxSize cs bs) (pieces : List Bytes) :
    (bs.length + pieces.flatten.length ≤ maxSize ∧ ∃ s' cs', s.writes pages pieces = some s' ∧
      s'.Sound f odd maxSize cs' (bs ++ pieces.flatten)) ∨
    (maxSize < bs.length + pieces.flatten.length ∧ s.writes pages pieces = none) := by
  induction pieces generalizing s cs bs with
  | nil => exact .inl ⟨h.length_le, s, cs, rfl, by simpa using h⟩
  | cons piece pieces ih =>
    rw [OutputStream.writes, List.flatten_cons, List.length_append]
    rcases h.write piece with ⟨-, s', cs', hwrite, hsound⟩ | ⟨hfull, hwrite⟩
    · rw [hwrite, Option.bind_some]
      have hrest := ih hsound
      rw [List.length_append, List.append_assoc, Nat.add_assoc] at hrest
      exact hrest
    · rw [hwrite]
      exact .inr ⟨by omega, rfl⟩

/-! A buffer stays allocated. -/

theorem put_allocated {value : UInt8} (h : s.bufferAllocation ≠ none)
    (hput : s.put pages value = some s') : s'.bufferAllocation ≠ none := by
  obtain ⟨buffer, hbuffer⟩ := Option.ne_none_iff_exists'.mp h
  rw [put] at hput
  split at hput
  · cases hput
    simp [store, hbuffer]
  · obtain ⟨t, ht, rfl⟩ := Option.map_eq_some_iff.mp hput
    rw [acquireNextChunk] at ht
    split at ht
    · cases ht
    · simp only [acquireNextChunkImpl, hbuffer, writeCurrentChunk, Option.map_some,
        Option.some.injEq] at ht
      simp [store, ← ht]

theorem write_allocated {more : Bytes} (h : s.bufferAllocation ≠ none)
    (hwrite : s.write pages more = some s') : s'.bufferAllocation ≠ none := by
  induction more generalizing s with
  | nil => cases hwrite; exact h
  | cons value more ih =>
    obtain ⟨t, hput, hrest⟩ := Option.bind_eq_some_iff.mp hwrite
    exact ih (put_allocated h hput) hrest

theorem writes_allocated {pieces : List Bytes} (h : s.bufferAllocation ≠ none)
    (hwrites : s.writes pages pieces = some s') : s'.bufferAllocation ≠ none := by
  induction pieces generalizing s with
  | nil => cases hwrites; exact h
  | cons piece pieces ih =>
    obtain ⟨t, hwrite, hrest⟩ := Option.bind_eq_some_iff.mp hwrites
    exact ih (write_allocated h hwrite) hrest

/-- Nothing has been done if there was nothing to write. -/
theorem writes_nothing {pieces : List Bytes} (h : pieces.flatten = []) :
    s.writes pages pieces = some s := by
  induction pieces with
  | nil => rfl
  | cons piece pieces ih =>
    obtain ⟨rfl, hrest⟩ := List.append_eq_nil_iff.mp h
    rw [writes, write, Option.bind_some]
    exact ih hrest

/-- The last block is written with whatever lies behind the data. -/
theorem Sound.finalize (h : s.Sound f odd maxSize cs bs) (hbuffer : s.bufferAllocation ≠ none) :
    ∃ ds, s.finalize = some (writeChunks f odd 0 ds) ∧ Full 0 ds ∧ ds ≠ [] ∧ bs <+: ds.flatten := by
  obtain ⟨buffer, hbuffer⟩ := Option.ne_none_iff_exists'.mp hbuffer
  have hlen := length_firstBytes buffer (indexToBlockSize s.indexPosition)
  refine ⟨cs ++ [firstBytes buffer (indexToBlockSize s.indexPosition)], ?_,
    h.full.append (by rw [hlen, h.index, Nat.zero_add]), by simp, ?_⟩
  · rw [OutputStream.finalize, writeCurrentChunk, hbuffer, writeChunks_append, Nat.zero_add,
      ← h.index, h.file, h.selector]
    rfl
  · rw [List.flatten_append, List.flatten_singleton, h.bytes buffer hbuffer,
      ← firstBytes_take buffer (h.written_le.trans h.area_le)]
    exact List.prefix_append_right_inj _ |>.mpr (List.take_prefix _ _)

end OutputStream

end Writing

/-! ## Reading -/

namespace InputStream

variable {bs : Bytes} {value : UInt8} {s : InputStream}

/-- The bytes `bs` come next. -/
def Ready (bs : Bytes) (s : InputStream) : Prop :=
  ∃ ds, Full s.indexPosition ds ∧ Holds s.dataSource s.streamSelector s.indexPosition ds ∧
    bs <+: s.readArea ++ ds.flatten ∧ bs.length ≤ s.readArea.length + s.remaining

/-- A block has been read, and not more of it is taken than may be. -/
theorem ready_chunk {f : File} {odd : Bool} {idx remaining : Nat} {d : Bytes} {ds : List Bytes}
    (hfull : Full (idx + 1) ds) (hholds : Holds f odd (idx + 1) ds) (hnext : bs <+: d ++ ds.flatten)
    (hlen : bs.length ≤ remaining) :
    (⟨f, odd, idx + 1, d.take remaining, remaining - (d.take remaining).length⟩ :
      InputStream).Ready bs := by
  have htake : (d.take remaining).length = min remaining d.length := List.length_take
  refine ⟨ds, hfull, hholds, ?_, ?_⟩
  · by_cases hle : remaining ≤ d.length
    · have hcut := List.prefix_take_iff.mpr ⟨hnext, hlen⟩
      rw [List.take_append_of_le_length hle] at hcut
      exact hcut.trans (List.prefix_append _ _)
    · dsimp only
      rwa [List.take_of_length_le (by omega)]
  · dsimp only
    omega

theorem Ready.acquireNextChunk (h : s.Ready (value :: bs)) (hempty : s.readArea = []) :
    ∃ s', s.acquireNextChunk = some s' ∧ s'.Ready (value :: bs) ∧ s'.readArea ≠ [] := by
  obtain ⟨ds, hfull, hholds, hnext, hlen⟩ := h
  rw [hempty, List.nil_append] at hnext
  rw [hempty, List.length_nil, Nat.zero_add] at hlen
  have hmore : s.remaining ≠ 0 := by
    rw [List.length_cons] at hlen
    omega
  cases ds with
  | nil => exact absurd (List.prefix_nil.mp hnext) (List.cons_ne_nil _ _)
  | cons d ds =>
    have hpos := blockSize_pos s.indexPosition
    have hd := hfull.1
    rw [InputStream.acquireNextChunk, if_neg hmore, hholds.1]
    refine ⟨_, rfl, ready_chunk hfull.2 hholds.2 hnext hlen, List.ne_nil_of_length_pos ?_⟩
    rw [List.length_take]
    omega

/-- The next byte is read from the chunk, with a new one if need be. -/
theorem Ready.get (h : s.Ready (value :: bs)) : ∃ s', s.get = some (value, s') ∧ s'.Ready bs := by
  have hdrain : ∀ (t : InputStream) (readArea : Bytes) (next : UInt8),
      t.readArea = next :: readArea →
      t.Ready (value :: bs) → next = value ∧ ({ t with readArea } : InputStream).Ready bs := by
    rintro t readArea next hcons ⟨ds, hfull, hholds, hnext, hlen⟩
    rw [hcons, List.cons_append] at hnext
    obtain ⟨rfl, hrest⟩ := List.cons_prefix_cons.mp hnext
    rw [hcons, List.length_cons, List.length_cons] at hlen
    exact ⟨rfl, ds, hfull, hholds, hrest, by dsimp only; omega⟩
  rw [InputStream.get]
  cases harea : s.readArea with
  | cons next readArea =>
    obtain ⟨rfl, hready⟩ := hdrain s readArea next harea h
    exact ⟨_, rfl, hready⟩
  | nil =>
    obtain ⟨t, hacquire, ht, hne⟩ := h.acquireNextChunk harea
    obtain ⟨next, readArea, hcons⟩ := List.exists_cons_of_ne_nil hne
    obtain ⟨rfl, hready⟩ := hdrain t readArea next hcons ht
    exact ⟨{ t with readArea }, by simp [hacquire, hcons], hready⟩

theorem Ready.read (h : s.Ready bs) : ∃ s', s.read bs.length = some (bs, s') := by
  induction bs generalizing s with
  | nil => exact ⟨s, rfl⟩
  | cons value bs ih =>
    obtain ⟨s', hget, hready⟩ := h.get
    obtain ⟨s'', hread⟩ := ih hready
    exact ⟨s'', by simp [InputStream.read, hget, hread]⟩

theorem ready_construct {f : File} {odd : Bool} {maxSize : Nat} {ds : List Bytes}
    (hfull : Full 0 ds) (hholds : Holds f odd 0 ds) (hnext : bs <+: ds.flatten)
    (hlen : bs.length ≤ maxSize) : (construct f odd maxSize).Ready bs :=
  ⟨ds, hfull, hholds, hnext, (Nat.zero_add maxSize).symm ▸ hlen⟩

theorem ready_interleavingInputStream {f : File} {odd : Bool} {maxSize : Nat} {d : Bytes}
    {ds : List Bytes} (hfull : Full 0 (d :: ds)) (hholds : Holds f odd 0 (d :: ds))
    (hnext : bs <+: (d :: ds).flatten) (hlen : bs.length ≤ maxSize) :
    ∃ s, interleavingInputStream f odd maxSize = some s ∧ s.Ready bs := by
  have htake : d.take (min maxSize (indexToBlockSize 0)) = d.take maxSize := by
    rw [← hfull.1, ← List.take_take, List.take_length]
  have husage : min maxSize (indexToBlockSize 0) = (d.take maxSize).length := by
    rw [List.length_take, hfull.1]
  rw [interleavingInputStream, hholds.1]
  refine ⟨_, rfl, ?_⟩
  dsimp only
  rw [htake, husage]
  exact ready_chunk hfull.2 hholds.2 hnext hlen

end InputStream

/-! ## Round trip -/

/-- How a writer comes to its buffer. -/
inductive Opening where
  | construct
  | interleavingOutputStream

def Opening.stream (opening : Opening) (pages : Nat → UInt8) (f : File) (odd : Bool)
    (maxSize : Nat) : OutputStream :=
  match opening with
  | .construct => .construct f odd maxSize
  | .interleavingOutputStream => .interleavingOutputStream pages f odd maxSize

/-- The bytes are read from the stream, however it is opened; what is not in the blocks of the
stream is as before. -/
structure RoundTrips (before after : File) (odd : Bool) (maxSize : Nat) (bs : Bytes) : Prop where
  constructed : ∃ s, (InputStream.construct after odd maxSize).read bs.length = some (bs, s)
  opened : ∃ s, ((InputStream.interleavingInputStream after odd maxSize).bind
    (InputStream.read bs.length)) = some (bs, s)
  other : ∀ idx pos, indexToBlockOffset idx (!odd) ≤ pos →
    pos < indexToBlockOffset idx (!odd) + indexToBlockSize idx → after.byte pos = before.byte pos
  other_chunks : ∀ idx chunk, readChunk before idx (!odd) = some chunk →
    readChunk after idx (!odd) = some chunk
  below : ∀ pos < 2 * pageSize, after.byte pos = before.byte pos

section RoundTrip

variable {f : File} {odd : Bool} {maxSize : Nat} {bs : Bytes} {cs : List Bytes}

/-- Only the blocks of the stream are written. -/
theorem byte_writeChunks {pos i : Nat} (hfull : Full i cs)
    (hpos : ∀ idx, pos < indexToBlockOffset idx odd ∨
      indexToBlockOffset idx odd + indexToBlockSize idx ≤ pos) :
    (writeChunks f odd i cs).byte pos = f.byte pos := by
  induction cs generalizing f i with
  | nil => rfl
  | cons c cs ih =>
    rw [writeChunks, ih hfull.2]
    have := hpos i
    refine File.byte_write_of_not_mem ?_
    rw [hfull.1]
    omega

theorem roundTrips_writeChunks (hfull : Full 0 cs) (hne : cs ≠ []) (hbs : bs <+: cs.flatten)
    (hlen : bs.length ≤ maxSize) : RoundTrips f (writeChunks f odd 0 cs) odd maxSize bs := by
  have hholds : Holds (writeChunks f odd 0 cs) odd 0 cs := holds_writeChunks hfull
  refine ⟨(InputStream.ready_construct hfull hholds hbs hlen).read, ?_,
    fun idx pos hlow hhigh => ?_,
    fun idx chunk => readChunk_writeChunks hfull (.inr (by simp)), fun pos hpos => ?_⟩
  · obtain ⟨d, ds, rfl⟩ := List.exists_cons_of_ne_nil hne
    obtain ⟨s, hopen, hready⟩ := InputStream.ready_interleavingInputStream hfull hholds hbs hlen
    rw [hopen]
    exact hready.read
  · refine byte_writeChunks hfull fun i => ?_
    have hdisjoint : i ≠ idx ∨ odd ≠ !odd := .inr (by simp)
    have := blocks_disjoint hdisjoint
    omega
  · refine byte_writeChunks hfull fun i => ?_
    have := coordinationArea_le i odd
    omega

end RoundTrip

theorem Opening.sound_stream (opening : Opening) (pages : Nat → UInt8) (f : File) (odd : Bool)
    (maxSize : Nat) : (opening.stream pages f odd maxSize).Sound f odd maxSize [] [] := by
  cases opening with
  | construct => exact OutputStream.sound_construct f odd maxSize
  | interleavingOutputStream =>
    exact OutputStream.sound_interleavingOutputStream pages f odd maxSize

/-- There is a buffer unless the writer has been constructed without one and has had no use for
it. -/
theorem Opening.allocated_iff {opening : Opening} {pages : Nat → UInt8} {f : File} {odd : Bool}
    {maxSize : Nat} {pieces : List Bytes} {s : OutputStream} {cs : List Bytes}
    (hwrites : (opening.stream pages f odd maxSize).writes pages pieces = some s)
    (hsound : s.Sound f odd maxSize cs pieces.flatten) :
    s.bufferAllocation ≠ none ↔ opening = .interleavingOutputStream ∨ pieces.flatten ≠ [] := by
  cases opening with
  | interleavingOutputStream =>
    have hsome : (Opening.stream .interleavingOutputStream pages f odd maxSize).bufferAllocation ≠
        none := nofun
    exact iff_of_true (OutputStream.writes_allocated hsome hwrites) (.inl rfl)
  | construct =>
    simp only [reduceCtorEq, false_or]
    constructor
    · intro hallocated hnothing
      rw [OutputStream.writes_nothing hnothing] at hwrites
      cases hwrites
      exact hallocated rfl
    · exact fun hne hnone => hne (hsound.unused hnone).2.1

/-- Blocks tile the file, writes succeed up to the size of the stream, and what has been written and
finalised is read again exactly if the writer has got a buffer. -/
theorem interleaving_round_trips_iff (f : File) (odd : Bool) (maxSize : Nat) (pages : Nat → UInt8)
    (opening : Opening) (pieces : List Bytes) :
    (∀ (i j : Nat) (s t : Bool), (i, s) ≠ (j, t) →
      indexToBlockOffset i s + indexToBlockSize i ≤ indexToBlockOffset j t ∨
        indexToBlockOffset j t + indexToBlockSize j ≤ indexToBlockOffset i s) ∧
    (∀ pos, 2 * pageSize ≤ pos ↔ ∃ block : Nat × Bool,
      indexToBlockOffset block.1 block.2 ≤ pos ∧
        pos < indexToBlockOffset block.1 block.2 + indexToBlockSize block.1) ∧
    ((∃ s, (opening.stream pages f odd maxSize).writes pages pieces = some s) ↔
      pieces.flatten.length ≤ maxSize) ∧
    ∀ s, (opening.stream pages f odd maxSize).writes pages pieces = some s →
      ((∃ after, s.finalize = some after ∧ RoundTrips f after odd maxSize pieces.flatten) ↔
        opening = .interleavingOutputStream ∨ pieces.flatten ≠ []) := by
  refine ⟨fun i j s t hne => blocks_disjoint ?_, fun pos => ⟨fun h => (blocks_tile h).exists, ?_⟩,
    ?_⟩
  · exact not_and_or.mp fun h => hne (Prod.ext h.1 h.2)
  · rintro ⟨block, hlow, -⟩
    exact (coordinationArea_le block.1 block.2).trans hlow
  · rcases (opening.sound_stream pages f odd maxSize).writes pieces with
      ⟨hlen, s, cs, hwrites, hsound⟩ | ⟨hlen, hwrites⟩
    · rw [List.length_nil, Nat.zero_add] at hlen
      rw [List.nil_append] at hsound
      refine ⟨iff_of_true ⟨s, hwrites⟩ hlen, fun s' hs' => ?_⟩
      obtain rfl := Option.some.inj (hwrites.symm.trans hs')
      rw [← Opening.allocated_iff hwrites hsound]
      constructor
      · rintro ⟨after, hfinalize, -⟩ hnone
        rw [OutputStream.finalize, OutputStream.writeCurrentChunk, hnone] at hfinalize
        cases hfinalize
      · intro hallocated
        obtain ⟨ds, hfinalize, hfull, hne, hbs⟩ := hsound.finalize hallocated
        exact ⟨_, hfinalize, roundTrips_writeChunks hfull hne hbs hlen⟩
    · rw [List.length_nil, Nat.zero_add] at hlen
      refine ⟨iff_of_false ?_ (Nat.not_le.mpr hlen), fun s hs => ?_⟩
      · rintro ⟨s, hs⟩
        cases hwrites.symm.trans hs
      · cases hwrites.symm.trans hs

/-- Three bytes in two pieces, through a writer that has been constructed. -/
theorem interleaving_round_trips_iff_sample : ∃ s after,
    (Opening.construct.stream (fun _ => 0) (.zeros 0) true maxStreamSize).writes (fun _ => 0)
      [[1, 2], [3]] = some s ∧
    s.finalize = some after ∧ RoundTrips (.zeros 0) after true maxStreamSize [1, 2, 3] := by
  obtain ⟨-, -, hwritten, hiff⟩ := interleaving_round_trips_iff (.zeros 0) true maxStreamSize
    (fun _ => 0) .construct [[1, 2], [3]]
  obtain ⟨s, hs⟩ := hwritten.mpr (by decide)
  obtain ⟨after, hfinalize, htrips⟩ := (hiff s hs).mpr (.inr (by decide))
  exact ⟨s, after, hs, hfinalize, htrips⟩

/-- A writer that has been constructed has nothing to finalise before its first byte. -/
theorem interleaving_not_round_trips : ¬∀ (f : File) (odd : Bool) (maxSize : Nat)
    (pages : Nat → UInt8) (opening : Opening) (pieces : List Bytes) (s : OutputStream),
    (opening.stream pages f odd maxSize).writes pages pieces = some s →
      ∃ after, s.finalize = some after ∧ RoundTrips f after odd maxSize pieces.flatten := by
  intro hall
  obtain ⟨after, hfinalize, -⟩ :=
    hall (.zeros 0) false maxStreamSize (fun _ => 0) .construct [] _ rfl
  cases hfinalize

end Deeplog.Database

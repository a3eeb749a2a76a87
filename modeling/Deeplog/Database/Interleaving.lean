import Mathlib.Tactic.IntervalCases
import Mathlib.Data.List.Flatten
import Deeplog.Lib.File

/-!
# Interleaving streams

Two streams share a file: `interleaving_input_stream_handle` and
`interleaving_output_stream_handle` transfer whole blocks, which grow up to 16 pages and
alternate between the streams. A writer writes its blocks in order, the last one filled with
zeros. Blocks are disjoint, so what one stream writes does not change the other.
-/

namespace Deeplog.Database

/-- The bytes of a stream. -/
abbrev Bytes := List UInt8

/-! ## Geometry -/

def pageSize : Nat := 1 <<< 12

def indexToBlockSize (idx : Nat) : Nat :=
  (if idx < 5 then 1 <<< idx else 1 <<< 4) * pageSize

def indexToBlockOffset (idx : Nat) (odd : Bool) : Nat :=
  let twodd := 2 ||| odd.toNat
  (if idx < 5 then twodd <<< idx else (2 <<< 4) * (idx - 3) + odd.toNat <<< 4) * pageSize

/-- `max_stream_size` -/
def maxStreamSize : Nat := (2 ^ 32 - 1) * pageSize

theorem blockSize_pos (idx : Nat) : 0 < indexToBlockSize idx := by
  rw [indexToBlockSize]
  split <;> simp [pageSize, Nat.shiftLeft_eq]

/-- The blocks of an index lie side by side. -/
theorem blockOffset_false (idx : Nat) :
    indexToBlockOffset idx false + indexToBlockSize idx = indexToBlockOffset idx true := by
  by_cases h : idx < 5
  · interval_cases idx <;> rfl
  · simp only [indexToBlockOffset, indexToBlockSize, if_neg h, pageSize]
    simp
    omega

/-- The blocks of the next index follow. -/
theorem blockOffset_true (idx : Nat) :
    indexToBlockOffset idx true + indexToBlockSize idx = indexToBlockOffset (idx + 1) false := by
  by_cases h : idx < 5
  · interval_cases idx <;> rfl
  · have hnext : ¬idx + 1 < 5 := by omega
    simp only [indexToBlockOffset, indexToBlockSize, if_neg h, if_neg hnext, pageSize]
    simp
    omega

theorem blockOffset_le (idx : Nat) (odd : Bool) :
    indexToBlockOffset idx false ≤ indexToBlockOffset idx odd ∧
      indexToBlockOffset idx odd + indexToBlockSize idx ≤ indexToBlockOffset (idx + 1) false := by
  have heven := blockOffset_false idx
  have hodd := blockOffset_true idx
  cases odd <;> omega

theorem blockOffset_mono {i j : Nat} (h : i ≤ j) :
    indexToBlockOffset i false ≤ indexToBlockOffset j false := by
  induction j, h using Nat.le_induction with
  | base => rfl
  | succ j _ ih =>
    have := blockOffset_false j
    have := blockOffset_true j
    omega

/-- No block reaches into the coordination area. -/
theorem coordinationArea_le (idx : Nat) (odd : Bool) :
    2 * pageSize ≤ indexToBlockOffset idx odd :=
  (blockOffset_mono (Nat.zero_le idx)).trans (blockOffset_le idx odd).1

theorem index_le_blockOffset (idx : Nat) : idx ≤ indexToBlockOffset idx false := by
  induction idx with
  | zero => simp
  | succ idx ih =>
    have := blockSize_pos idx
    have := blockOffset_false idx
    have := blockOffset_true idx
    omega

theorem blocks_disjoint_of_lt {i j : Nat} (h : i < j) (s t : Bool) :
    indexToBlockOffset i s + indexToBlockSize i ≤ indexToBlockOffset j t :=
  calc
    _ ≤ indexToBlockOffset (i + 1) false := (blockOffset_le i s).2
    _ ≤ indexToBlockOffset j false := blockOffset_mono h
    _ ≤ indexToBlockOffset j t := (blockOffset_le j t).1

theorem blocks_disjoint {i j : Nat} {s t : Bool} (h : i ≠ j ∨ s ≠ t) :
    indexToBlockOffset i s + indexToBlockSize i ≤ indexToBlockOffset j t ∨
      indexToBlockOffset j t + indexToBlockSize j ≤ indexToBlockOffset i s := by
  rcases Nat.lt_trichotomy i j with hlt | rfl | hgt
  · exact .inl (blocks_disjoint_of_lt hlt s t)
  · have hside := blockOffset_false i
    cases s <;> cases t <;> grind
  · exact .inr (blocks_disjoint_of_lt hgt t s)

/-! ## Output -/

/-- The blocks of a stream from the index `idx` on: `acquire_next_chunk_impl` starts the next
one when a block is full, and `finalize` writes the last one with the zeros behind the data. -/
def chunks (idx : Nat) (bs : Bytes) : List Bytes :=
  if bs.length ≤ indexToBlockSize idx then
    [bs ++ List.replicate (indexToBlockSize idx - bs.length) 0]
  else bs.take (indexToBlockSize idx) :: chunks (idx + 1) (bs.drop (indexToBlockSize idx))
termination_by bs.length
decreasing_by
  have := blockSize_pos idx
  simp only [List.length_drop]
  omega

/-- `write_current_chunk` for each of the blocks. -/
def writeChunks (f : File) (odd : Bool) (idx : Nat) : List Bytes → File
  | [] => f
  | chunk :: rest => writeChunks (f.write (indexToBlockOffset idx odd) chunk) odd (idx + 1) rest

/-! ## Input -/

/-- A block that is not there as a whole is the end of the stream. -/
def readChunk (f : File) (idx : Nat) (odd : Bool) : Option Bytes :=
  f.read (indexToBlockOffset idx odd) (indexToBlockSize idx)

/-- The data of up to `fuel` further blocks. -/
def readChunks (f : File) (odd : Bool) : (fuel idx : Nat) → Bytes
  | 0, _ => []
  | fuel + 1, idx =>
    match readChunk f idx odd with
    | some chunk => chunk ++ readChunks f odd fuel (idx + 1)
    | none => []

/-- What can be read from a stream. It cannot be opened without its first block. -/
def interleavingInputStream (f : File) (odd : Bool) : Option Bytes :=
  (readChunk f 0 odd).map fun chunk => (chunk ++ readChunks f odd f.size 1).take maxStreamSize

/-! ## What is written is read -/

/-- The blocks are found in the stream, from the index on. -/
def Holds (f : File) (odd : Bool) : (idx : Nat) → List Bytes → Prop
  | _, [] => True
  | idx, chunk :: rest => readChunk f idx odd = some chunk ∧ Holds f odd (idx + 1) rest

/-- Every block is full. -/
def Full : (idx : Nat) → List Bytes → Prop
  | _, [] => True
  | idx, chunk :: rest => chunk.length = indexToBlockSize idx ∧ Full (idx + 1) rest

variable {f : File} {odd other : Bool} {i j : Nat} {bs x : Bytes} {cs ds : List Bytes}

theorem full_chunks (idx : Nat) (bs : Bytes) : Full idx (chunks idx bs) := by
  induction idx, bs using chunks.induct with
  | case1 idx bs h =>
    rw [chunks, if_pos h]
    exact ⟨by simp; omega, trivial⟩
  | case2 idx bs h ih =>
    rw [chunks, if_neg h]
    exact ⟨by simp; omega, ih⟩

theorem Full.take (h : Full i cs) (k : Nat) : Full i (cs.take k) := by
  induction cs generalizing i k with
  | nil => simpa using h
  | cons c cs ih =>
    cases k with
    | zero => trivial
    | succ k => exact ⟨h.1, ih h.2 k⟩

/-- The data of a stream is followed by zeros. -/
theorem flatten_chunks (idx : Nat) (bs : Bytes) :
    ∃ n, (chunks idx bs).flatten = bs ++ List.replicate n 0 := by
  induction idx, bs using chunks.induct with
  | case1 idx bs h =>
    rw [chunks, if_pos h]
    exact ⟨_, List.flatten_singleton⟩
  | case2 idx bs h ih =>
    obtain ⟨n, hn⟩ := ih
    rw [chunks, if_neg h]
    exact ⟨n, by rw [List.flatten_cons, hn, ← List.append_assoc, List.take_append_drop]⟩

theorem chunks_of_lt {idx : Nat} (h : indexToBlockSize idx < bs.length) :
    chunks idx bs =
      bs.take (indexToBlockSize idx) :: chunks (idx + 1) (bs.drop (indexToBlockSize idx)) := by
  rw [chunks, if_neg (Nat.not_le_of_lt h)]

theorem chunks_ne_nil (idx : Nat) (bs : Bytes) : chunks idx bs ≠ [] := by
  rw [chunks]
  split <;> simp

theorem readChunk_write (hlen : x.length = indexToBlockSize i) :
    readChunk (f.write (indexToBlockOffset i odd) x) i odd = some x := by
  rw [readChunk, ← hlen]
  exact File.read_write ..

theorem readChunk_write_of_ne (hlen : x.length = indexToBlockSize i)
    (hne : j ≠ i ∨ other ≠ odd) (h : readChunk f j other = some bs) :
    readChunk (f.write (indexToBlockOffset i odd) x) j other = some bs := by
  refine File.read_write_of_disjoint h ?_
  rw [hlen]
  exact blocks_disjoint hne

/-- Blocks of the other stream, and those before the first that is written, stay as they are. -/
theorem readChunk_writeChunks (hfull : Full i cs) (hne : j < i ∨ other ≠ odd)
    (h : readChunk f j other = some bs) :
    readChunk (writeChunks f odd i cs) j other = some bs := by
  induction cs generalizing f i with
  | nil => exact h
  | cons c cs ih =>
    refine ih hfull.2 (hne.imp_left fun hlt => by omega) ?_
    exact readChunk_write_of_ne hfull.1 (hne.imp_left Nat.ne_of_lt) h

theorem holds_writeChunks (hfull : Full i cs) : Holds (writeChunks f odd i cs) odd i cs := by
  induction cs generalizing f i with
  | nil => trivial
  | cons c cs ih =>
    rw [writeChunks]
    refine ⟨readChunk_writeChunks hfull.2 (.inl (Nat.lt_succ_self i)) ?_, ih hfull.2⟩
    exact readChunk_write hfull.1

theorem Holds.writeChunks (h : Holds f other j ds) (hfull : Full i cs) (hne : other ≠ odd) :
    Holds (writeChunks f odd i cs) other j ds := by
  induction ds generalizing j with
  | nil => trivial
  | cons d ds ih => exact ⟨readChunk_writeChunks hfull (.inr hne) h.1, ih h.2⟩

theorem Holds.write (h : Holds f odd j ds) (hlen : x.length = indexToBlockSize i) (hlt : i < j) :
    Holds (f.write (indexToBlockOffset i odd) x) odd j ds := by
  induction ds generalizing j with
  | nil => trivial
  | cons d ds ih =>
    exact ⟨readChunk_write_of_ne hlen (.inl (Nat.ne_of_gt hlt)) h.1, ih h.2 (by omega)⟩

/-- Blocks that are written again stay the same. -/
theorem Holds.rewrite (h : Holds f odd i cs) (hfull : Full i cs) (k : Nat) :
    Holds (Database.writeChunks f odd i (cs.take k)) odd i cs := by
  induction cs generalizing f i k with
  | nil => trivial
  | cons c cs ih =>
    cases k with
    | zero => exact h
    | succ k =>
      rw [List.take_succ_cons, Database.writeChunks]
      refine ⟨readChunk_writeChunks (hfull.2.take k) (.inl (Nat.lt_succ_self i)) ?_, ?_⟩
      · exact readChunk_write hfull.1
      · exact ih (h.2.write hfull.1 (Nat.lt_succ_self i)) hfull.2 k

theorem size_le_writeChunks : f.size ≤ (writeChunks f odd i cs).size := by
  induction cs generalizing f i with
  | nil => rfl
  | cons c cs ih => exact (File.size_le_write ..).trans ih

/-- The coordination area is not written. -/
theorem read_writeChunks {len : Nat} (hlen : len ≤ 2 * pageSize) (h : f.read 0 len = some x) :
    (writeChunks f odd i cs).read 0 len = some x := by
  induction cs generalizing f i with
  | nil => exact h
  | cons c cs ih =>
    have harea := coordinationArea_le i odd
    exact ih (File.read_write_of_disjoint h (.inl (by omega)))

theorem index_lt_size (h : readChunk f i odd = some x) : i < f.size := by
  have hsize := (File.read_eq_some_iff.mp h).1
  have := blockSize_pos i
  have := index_le_blockOffset i
  have := (blockOffset_le i odd).1
  omega

theorem Holds.readChunks (h : Holds f odd i cs) (fuel : Nat) (hfuel : f.size ≤ i + fuel) :
    ∃ rest, readChunks f odd fuel i = cs.flatten ++ rest := by
  induction cs generalizing i fuel with
  | nil => exact ⟨_, rfl⟩
  | cons c cs ih =>
    have hlt := index_lt_size h.1
    obtain ⟨fuel, rfl⟩ : ∃ n, fuel = n + 1 := ⟨fuel - 1, by omega⟩
    obtain ⟨rest, hrest⟩ := ih h.2 fuel (by omega)
    exact ⟨rest, by simp [Database.readChunks, h.1, hrest]⟩

/-- A stream with the blocks of some data starts with the data. -/
theorem Holds.inputStream (h : Holds f odd 0 (chunks 0 bs)) (hlen : bs.length ≤ maxStreamSize) :
    ∃ rest, interleavingInputStream f odd = some (bs ++ rest) := by
  obtain ⟨c, cs, hcs⟩ := List.exists_cons_of_ne_nil (chunks_ne_nil 0 bs)
  obtain ⟨n, hflat⟩ := flatten_chunks 0 bs
  rw [hcs] at h hflat
  obtain ⟨rest, hrest⟩ := h.2.readChunks f.size (by omega)
  refine ⟨(List.replicate n 0 ++ rest).take (maxStreamSize - bs.length), ?_⟩
  rw [interleavingInputStream, h.1, Option.map_some, hrest, ← List.append_assoc,
    ← List.flatten_cons, hflat, List.append_assoc, List.take_append,
    List.take_of_length_le hlen]

end Deeplog.Database

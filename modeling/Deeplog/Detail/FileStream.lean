import Deeplog.Lib.Cbor
import Deeplog.Lib.Runs

/-!
# The input stream over a file

`os_input_stream` of `detail/file_stream.hpp`, a `dp::input_buffer` that refills itself from a
file handle. A refill reads again what is still buffered, from where that begins. The next
position is then taken from the size of the chunk, which counts the remainder once more, so
every later chunk begins that much too far.
-/

namespace Deeplog.Detail

open Cbor (Bytes)
open Runs (run Along run_cons_eq_some)

/-- Truncation to `std::uint64_t`. -/
def u64 (n : Nat) : Nat := n % 2 ^ 64

/-- The difference of two 64-bit numbers. -/
def sub64 (a b : Nat) : Nat := u64 (a + (2 ^ 64 - u64 b))

/-- The errors of the stream, `dp::errc` except for the last. -/
inductive StreamErrc where
  | bad | endOfStream | bufferSizeExceeded | invalidArgument
  deriving DecidableEq, Repr

/-- A handle whose reads return as many of the requested bytes as the file still has. -/
structure DataSource where
  isReadable : Bool
  isSeekable : Bool
  requiresAlignedIo : Bool
  content : Bytes

def pageSize : Nat := 2 ^ 12
def bufferSize : Nat := pageSize * 16

/-- `byte_io_handle::read` -/
def DataSource.read (dataSource : DataSource) (pos n : Nat) : Bytes :=
  (dataSource.content.drop pos).take n

/-- The bits of a position that an aligned read leaves out. -/
def DataSource.alignMask (dataSource : DataSource) : Nat :=
  let pageMask := pageSize - 1
  if dataSource.requiresAlignedIo then pageMask else 0

/-- `read_chunk` -/
def readChunk (dataSource : DataSource) (readPos readBufferSize : Nat) : Except StreamErrc Bytes :=
  let realReadPos := readPos &&& (2 ^ 64 - 1 - dataSource.alignMask)
  let discard := readPos &&& dataSource.alignMask
  let buffer := dataSource.read realReadPos readBufferSize
  if buffer.length ≤ discard then .error .endOfStream else .ok (buffer.drop discard)

/-- The bytes from `data()` on as many as `size()` says, the input size of the `input_buffer`,
and the members of the stream, of its pages only their size. -/
structure OsInputStream where
  buffered : Bytes
  inputSize : Nat
  bufferAllocation : Nat
  readOffset : Nat

/-- What a call reports, and the stream behind it. -/
structure Outcome where
  failure : Option StreamErrc
  stream : OsInputStream

/-- What a bulk read has put into the destination. -/
structure Transfer extends Outcome where
  bytes : Bytes

namespace OsInputStream

/-- `create`, into pages that contain `pages`. -/
def create (pages : Bytes) (dataSource : DataSource) (maxSize : Nat) :
    Except StreamErrc OsInputStream :=
  if !dataSource.isReadable || !dataSource.isSeekable then .error .invalidArgument
  else do
    let initialReadArea ← readChunk dataSource 0 bufferSize
    let initialUsage := min maxSize bufferSize
    pure
      { buffered := (initialReadArea ++ pages.drop initialReadArea.length).take initialUsage
        inputSize := maxSize
        bufferAllocation := bufferSize
        readOffset := initialUsage }

variable (dataSource : DataSource) (s : OsInputStream)

/-- `input_buffer::discard_buffered` -/
def discardBuffered (amount : Nat) : OsInputStream :=
  { s with
    buffered := s.buffered.drop amount
    inputSize := sub64 s.inputSize amount }

/-- `read_next_chunk` -/
def readNextChunk : Except StreamErrc OsInputStream := do
  let bufferAllocation := if s.bufferAllocation = 0 then bufferSize else s.bufferAllocation
  let nextChunk ← readChunk dataSource (sub64 s.readOffset s.buffered.length) bufferAllocation
  pure
    { s with
      buffered := nextChunk
      bufferAllocation
      readOffset := u64 (s.readOffset + nextChunk.length) }

/-- `do_require_input`, given `dp::minimum_input_buffer_size` -/
def doRequireInput (minimumInputBufferSize requiredSize : Nat) : Outcome :=
  match s.readNextChunk dataSource with
  | .error e => ⟨some e, s⟩
  | .ok s =>
    if s.buffered.length < requiredSize then
      ⟨some (if minimumInputBufferSize < requiredSize then .bufferSizeExceeded else .endOfStream),
        s⟩
    else ⟨none, s⟩

/-- The stream moved on over bytes that it has not buffered. -/
def moveOn (amount : Nat) : OsInputStream :=
  { s with
    buffered := []
    inputSize := sub64 s.inputSize amount
    readOffset := u64 (s.readOffset + amount) }

/-- `do_discard_input` -/
def doDiscardInput (amount : Nat) : Outcome :=
  let s := s.moveOn amount
  if 0 < s.inputSize then
    match s.readNextChunk dataSource with
    | .error e => ⟨some e, s⟩
    | .ok s => ⟨none, s⟩
  else ⟨none, s⟩

end OsInputStream

/-! ## Reading -/

variable {dataSource : DataSource} {pos n : Nat} {chunk : Bytes}

theorem readChunk_eq_ok_iff :
    readChunk dataSource pos n = .ok chunk ↔
      chunk ≠ [] ∧ chunk = (dataSource.read (pos &&& (2 ^ 64 - 1 - dataSource.alignMask)) n).drop
        (pos &&& dataSource.alignMask) := by
  simp only [readChunk]
  split
  case isTrue hle =>
    simp only [reduceCtorEq, false_iff, not_and]
    rintro hne rfl
    exact hne (List.drop_eq_nil_of_le hle)
  case isFalse hlt =>
    simp only [Except.ok.injEq]
    constructor
    · rintro rfl
      exact ⟨by simpa using hlt, rfl⟩
    · rintro ⟨-, rfl⟩
      rfl

theorem readChunk_length_le (h : readChunk dataSource pos n = .ok chunk) : chunk.length ≤ n := by
  rw [(readChunk_eq_ok_iff.mp h).2]
  simp only [DataSource.read, List.length_drop, List.length_take]
  omega

theorem readChunk_lt (h : readChunk dataSource pos n = .ok chunk) : n - chunk.length < n := by
  have hpos := List.length_pos_iff.mpr (readChunk_eq_ok_iff.mp h).1
  have hle := readChunk_length_le h
  omega

/-- Without alignment a chunk is what the file has at the position. -/
theorem readChunk_unaligned (halign : dataSource.requiresAlignedIo = false) (hpos : pos < 2 ^ 64) :
    readChunk dataSource pos n =
      if dataSource.read pos n = [] then .error .endOfStream else .ok (dataSource.read pos n) := by
  have hmask : dataSource.alignMask = 0 := by simp [DataSource.alignMask, halign]
  have hreal : pos &&& (2 ^ 64 - 1 - 0) = pos := by
    rw [Nat.sub_zero, Nat.and_two_pow_sub_one_eq_mod, Nat.mod_eq_of_lt hpos]
  simp only [readChunk, hmask, hreal, Nat.and_zero, Nat.le_zero_eq, List.length_eq_zero_iff,
    List.drop_zero]

theorem readChunk_prefix (halign : dataSource.requiresAlignedIo = false) (hpos : pos < 2 ^ 64)
    (h : readChunk dataSource pos n = .ok chunk) : chunk <+: dataSource.content.drop pos := by
  rw [readChunk_unaligned halign hpos] at h
  split at h
  · cases h
  · cases h
    exact List.take_prefix _ _

variable {s s' : OsInputStream}

theorem OsInputStream.readNextChunk_eq_ok_iff :
    s.readNextChunk dataSource = .ok s' ↔
      ∃ chunk, readChunk dataSource (sub64 s.readOffset s.buffered.length)
          (if s.bufferAllocation = 0 then bufferSize else s.bufferAllocation) = .ok chunk ∧
        s' =
          { s with
            buffered := chunk
            bufferAllocation := if s.bufferAllocation = 0 then bufferSize else s.bufferAllocation
            readOffset := u64 (s.readOffset + chunk.length) } := by
  simp only [readNextChunk, bind, Except.bind, pure, Except.pure]
  cases readChunk dataSource (sub64 s.readOffset s.buffered.length)
    (if s.bufferAllocation = 0 then bufferSize else s.bufferAllocation) with
  | error e => simp
  | ok chunk => simp [eq_comm]

/-- The stream that is created with the size of its file. -/
def OsInputStream.opened (content : Bytes) : OsInputStream where
  buffered := content.take bufferSize
  inputSize := content.length
  bufferAllocation := bufferSize
  readOffset := min content.length bufferSize

theorem OsInputStream.create_eq_ok_iff {pages : Bytes}
    (halign : dataSource.requiresAlignedIo = false) :
    create pages dataSource dataSource.content.length = .ok s ↔
      dataSource.isReadable = true ∧ dataSource.isSeekable = true ∧ dataSource.content ≠ [] ∧
        s = opened dataSource.content := by
  have hread : dataSource.read 0 bufferSize = dataSource.content.take bufferSize := rfl
  have hfull : ∀ rest : Bytes, (dataSource.content.take bufferSize ++ rest).take
      (min dataSource.content.length bufferSize) = dataSource.content.take bufferSize := fun rest =>
    List.take_left' (by rw [List.length_take, Nat.min_comm])
  have hnil : dataSource.content.take bufferSize = [] ↔ dataSource.content = [] :=
    List.take_eq_nil_iff.trans (or_iff_right (by decide))
  simp only [create, readChunk_unaligned halign (Nat.two_pow_pos 64), hread, hnil]
  by_cases hable : dataSource.isReadable = true ∧ dataSource.isSeekable = true
  · by_cases hempty : dataSource.content = []
    · simp [hable, hempty, bind, Except.bind]
    · simp [hable, hempty, bind, Except.bind, pure, Except.pure, hfull, opened, eq_comm]
  · simp only [not_and_or, Bool.not_eq_true] at hable
    rcases hable with h | h <;> simp [h]

theorem OsInputStream.readNextChunk_ne_nil (h : s.readNextChunk dataSource = .ok s') :
    s'.buffered ≠ [] := by
  obtain ⟨chunk, hchunk, rfl⟩ := readNextChunk_eq_ok_iff.mp h
  exact (readChunk_eq_ok_iff.mp hchunk).1

/-- A refill inside of the file. -/
theorem OsInputStream.readNextChunk_within {q : Nat}
    (halign : dataSource.requiresAlignedIo = false) (halloc : s.bufferAllocation = bufferSize)
    (hoffset : s.readOffset = q + s.buffered.length) (hq : q < dataSource.content.length)
    (hlt : q + s.buffered.length + dataSource.content.length < 2 ^ 64) :
    s.readNextChunk dataSource =
      .ok
        { s with
          buffered := dataSource.read q bufferSize
          readOffset := s.readOffset + (dataSource.read q bufferSize).length } := by
  have hpos : sub64 s.readOffset s.buffered.length = q := by
    simp only [sub64, u64]
    omega
  have hne : dataSource.read q bufferSize ≠ [] := by
    simp only [DataSource.read, ne_eq, List.take_eq_nil_iff, List.drop_eq_nil_iff]
    exact not_or.mpr ⟨by decide, by omega⟩
  have hlen : (dataSource.read q bufferSize).length ≤ dataSource.content.length := by
    simp only [DataSource.read, List.length_take, List.length_drop]
    omega
  have hnext : u64 (s.readOffset + (dataSource.read q bufferSize).length) =
      s.readOffset + (dataSource.read q bufferSize).length := Nat.mod_eq_of_lt (by omega)
  have hpages : (if s.bufferAllocation = 0 then bufferSize else s.bufferAllocation) =
      s.bufferAllocation := by
    rw [halloc]
    rfl
  refine readNextChunk_eq_ok_iff.mpr ⟨dataSource.read q bufferSize, ?_, ?_⟩
  · rw [hpos, hpages, halloc, readChunk_unaligned halign (by omega), if_neg hne]
  · rw [hnext, hpages]

theorem OsInputStream.doRequireInput_length {minimumInputBufferSize requiredSize : Nat}
    (h : (s.doRequireInput dataSource minimumInputBufferSize requiredSize).failure = none) :
    requiredSize ≤
      (s.doRequireInput dataSource minimumInputBufferSize requiredSize).stream.buffered.length := by
  simp only [doRequireInput] at h ⊢
  cases hread : s.readNextChunk dataSource with
  | error e => simp [hread] at h
  | ok s' =>
    simp only [hread] at h ⊢
    split at h
    · cases h
    case isFalse henough =>
      rw [if_neg henough]
      exact Nat.le_of_not_lt henough

theorem OsInputStream.doRequireInput_stream {minimumInputBufferSize requiredSize : Nat}
    (h : s.readNextChunk dataSource = .ok s') :
    (s.doRequireInput dataSource minimumInputBufferSize requiredSize).stream = s' := by
  simp only [doRequireInput, h]
  split <;> rfl

/-! ## Bulk reads -/

namespace OsInputStream

/-- What of the destination is left, and whether another chunk is read for it. -/
def pending (s : OsInputStream) (destSize : Nat) : Nat :=
  2 * destSize + if s.buffered = [] then 1 else 0

theorem pending_lt {destSize : Nat} (h : s.readNextChunk dataSource = .ok s')
    (hempty : s.buffered = []) :
    (s'.discardBuffered (min s'.buffered.length destSize)).pending
      (destSize - min s'.buffered.length destSize) < s.pending destSize := by
  have hpos := List.length_pos_iff.mpr (readNextChunk_ne_nil h)
  simp only [pending, hempty, if_true, discardBuffered, List.drop_eq_nil_iff]
  split_ifs <;> omega

/-- The second loop of `do_bulk_read`: chunks, copied from the buffer. -/
def copyChunks (dataSource : DataSource) (s : OsInputStream) (destSize : Nat) : Transfer :=
  if _hloop : s.buffered = [] ∧ 0 < s.inputSize then
    match _hread : s.readNextChunk dataSource with
    | .error e => ⟨⟨some e, s⟩, []⟩
    | .ok s' =>
      let transferAmount := min s'.buffered.length destSize
      let rest := copyChunks dataSource (s'.discardBuffered transferAmount)
        (destSize - transferAmount)
      { rest with bytes := s'.buffered.take transferAmount ++ rest.bytes }
  else if destSize = 0 then ⟨⟨none, s⟩, []⟩
  else ⟨⟨some .endOfStream, s⟩, []⟩
termination_by s.pending destSize
decreasing_by exact pending_lt _hread _hloop.1

/-- The first loop of `do_bulk_read`: straight into the destination. -/
def readDirect (dataSource : DataSource) (s : OsInputStream) (destSize : Nat) : Transfer :=
  if bufferSize < destSize then
    match _hread : readChunk dataSource s.readOffset destSize with
    | .error e => ⟨⟨some e, s⟩, []⟩
    | .ok ioBuffer =>
      let rest := readDirect dataSource (s.moveOn ioBuffer.length) (destSize - ioBuffer.length)
      { rest with bytes := ioBuffer ++ rest.bytes }
  else copyChunks dataSource s destSize
termination_by destSize
decreasing_by exact readChunk_lt _hread

/-- `do_bulk_read` -/
def doBulkRead (dataSource : DataSource) (s : OsInputStream) (destSize : Nat) : Transfer :=
  if dataSource.requiresAlignedIo then ⟨⟨some .bad, s⟩, []⟩
  else readDirect dataSource s destSize

theorem copyChunks_length {destSize : Nat}
    (h : (copyChunks dataSource s destSize).failure = none) :
    (copyChunks dataSource s destSize).bytes.length = destSize := by
  fun_induction copyChunks dataSource s destSize with
  | case1 s destSize hloop e hread => cases h
  | case2 s destSize hloop s' hread n rest =>
    rename_i ih
    have hn : n ≤ s'.buffered.length ∧ n ≤ destSize :=
      ⟨Nat.min_le_left _ _, Nat.min_le_right _ _⟩
    have hrest : rest.bytes.length = destSize - n := ih h
    simp only [List.length_append, List.length_take, hrest]
    omega
  | case3 s hloop => rfl
  | case4 s destSize hloop hdest => cases h

theorem readDirect_length {destSize : Nat}
    (h : (readDirect dataSource s destSize).failure = none) :
    (readDirect dataSource s destSize).bytes.length = destSize := by
  fun_induction readDirect dataSource s destSize with
  | case1 s destSize hlarge e hread => cases h
  | case2 s destSize hlarge ioBuffer hread rest =>
    rename_i ih
    have hle := readChunk_length_le hread
    have hrest : rest.bytes.length = destSize - ioBuffer.length := ih h
    simp only [List.length_append, hrest]
    omega
  | case3 s destSize hsmall => exact copyChunks_length h

/-- A bulk read that succeeds has filled its destination. -/
theorem doBulkRead_length {destSize : Nat}
    (h : (doBulkRead dataSource s destSize).failure = none) :
    (doBulkRead dataSource s destSize).bytes.length = destSize := by
  unfold doBulkRead at h ⊢
  split at h
  · cases h
  · next hunaligned => rw [if_neg hunaligned, readDirect_length h]

end OsInputStream

/-! ## Calls -/

/-- What `dp::input_buffer` and its caller do with the stream. What the buffer can serve alone
is a `discardBuffered`, whose bytes the caller has seen. -/
inductive StreamCall where
  | discardBuffered (amount : Nat)
  | doRequireInput (requiredSize : Nat)
  | doDiscardInput (amount : Nat)
  | doBulkRead (destSize : Nat)

/-- What a call reports to the caller that had consumed `consumed` bytes before, and the bytes
that it lets the caller see. -/
structure Reply where
  call : StreamCall
  consumed : Nat
  failure : Option StreamErrc
  bytes : Bytes

/-- A stream together with what its caller has consumed and been told. -/
structure Reading where
  stream : OsInputStream
  consumed : Nat
  replies : List Reply
  /-- The bytes that refills have kept. -/
  kept : Nat

namespace Reading

variable (dataSource : DataSource) (minimumInputBufferSize : Nat)

def start (s : OsInputStream) : Reading where
  stream := s
  consumed := 0
  replies := []
  kept := 0

/-- A call, if `dp::input_buffer` makes it in this state. -/
def step : StreamCall → Reading → Option Reading
  | .discardBuffered amount, r =>
    if amount ≤ r.stream.buffered.length then
      let bytes := r.stream.buffered.take amount
      some
        { r with
          stream := r.stream.discardBuffered amount
          consumed := r.consumed + amount
          replies := r.replies ++ [⟨.discardBuffered amount, r.consumed, none, bytes⟩] }
    else none
  | .doRequireInput requiredSize, r =>
    if r.stream.buffered.length < requiredSize then
      let o := r.stream.doRequireInput dataSource minimumInputBufferSize requiredSize
      some
        { r with
          stream := o.stream
          replies := r.replies ++
            [⟨.doRequireInput requiredSize, r.consumed, o.failure, o.stream.buffered⟩]
          kept := r.kept +
            if (r.stream.readNextChunk dataSource).isOk then r.stream.buffered.length else 0 }
    else none
  | .doDiscardInput amount, r =>
    if r.stream.buffered = [] then
      let o := r.stream.doDiscardInput dataSource amount
      some
        { r with
          stream := o.stream
          consumed := r.consumed + amount
          replies := r.replies ++ [⟨.doDiscardInput amount, r.consumed, o.failure, []⟩] }
    else none
  | .doBulkRead destSize, r =>
    if r.stream.buffered = [] then
      let t := r.stream.doBulkRead dataSource destSize
      some
        { r with
          stream := t.stream
          consumed := r.consumed + t.bytes.length
          replies := r.replies ++ [⟨.doBulkRead destSize, r.consumed, t.failure, t.bytes⟩] }
    else none

end Reading

/-- The bytes that a call shows its caller are as many as it was called for. -/
def StreamCall.Delivered (bytes : Bytes) : StreamCall → Prop
  | .discardBuffered amount | .doBulkRead amount => bytes.length = amount
  | .doRequireInput requiredSize => requiredSize ≤ bytes.length
  | .doDiscardInput _ => True

/-- The file has what the call asks for behind the bytes that have been consumed, and the buffer
has room for it. -/
def StreamCall.Within (size consumed : Nat) : StreamCall → Prop
  | .discardBuffered amount | .doDiscardInput amount | .doBulkRead amount =>
    consumed + amount ≤ size
  | .doRequireInput requiredSize => consumed + requiredSize ≤ size ∧ requiredSize ≤ bufferSize

/-- A call shows bytes of the file from where the caller has got to, as many as it was called for
if it succeeds, and it fails only where the file or the buffer ends. -/
structure Reply.Faithful (content : Bytes) (reply : Reply) : Prop where
  bytes : reply.bytes <+: content.drop reply.consumed
  delivered : reply.failure = none → reply.call.Delivered reply.bytes
  succeeds : reply.call.Within content.length reply.consumed → reply.failure = none

/-- The caller sees the bytes of the file, whatever it calls. -/
structure Reading.Faithful (content : Bytes) (r : Reading) : Prop where
  buffered : r.stream.buffered <+: content.drop r.consumed
  replies : ∀ reply ∈ r.replies, reply.Faithful content

/-! ## Positions

`At` is what the calls keep whatever they do: the next read begins `kept` bytes behind the ones
that have been consumed. -/

namespace OsInputStream

/-- A stream over a file of `size` bytes whose caller has consumed `consumed` of them. -/
structure At (size : Nat) (s : OsInputStream) (consumed kept : Nat) : Prop where
  readOffset : s.readOffset = u64 (consumed + s.buffered.length + kept)
  inputSize : u64 (s.inputSize + consumed) = u64 size
  inputSize_lt : s.inputSize < 2 ^ 64
  allocated : s.bufferAllocation = bufferSize

theorem sub64_lt (a b : Nat) : sub64 a b < 2 ^ 64 := Nat.mod_lt _ (by decide)

variable {size consumed kept amount : Nat}

theorem At.discardBuffered (h : s.At size consumed kept) (hle : amount ≤ s.buffered.length) :
    (s.discardBuffered amount).At size (consumed + amount) kept := by
  obtain ⟨hoffset, hinput, -, halloc⟩ := h
  refine ⟨?_, ?_, sub64_lt _ _, halloc⟩
  · simp only [OsInputStream.discardBuffered, List.length_drop, hoffset]
    congr 1
    omega
  · simp only [OsInputStream.discardBuffered, u64, sub64] at hinput ⊢
    omega

theorem At.moveOn (h : s.At size consumed kept) (hempty : s.buffered = []) (amount : Nat) :
    (s.moveOn amount).At size (consumed + amount) kept := by
  obtain ⟨hoffset, hinput, -, halloc⟩ := h
  refine ⟨?_, ?_, sub64_lt _ _, halloc⟩
  · simp only [OsInputStream.moveOn, hempty, List.length_nil, u64] at hoffset ⊢
    omega
  · simp only [OsInputStream.moveOn, u64, sub64] at hinput ⊢
    omega

/-- A refill counts what it has kept once more. -/
theorem At.readNextChunk (h : s.At size consumed kept)
    (hread : s.readNextChunk dataSource = .ok s') :
    s'.At size consumed (kept + s.buffered.length) := by
  obtain ⟨chunk, -, rfl⟩ := readNextChunk_eq_ok_iff.mp hread
  obtain ⟨hoffset, hinput, hlt, halloc⟩ := h
  refine ⟨?_, hinput, hlt, ?_⟩
  · simp only [u64] at hoffset ⊢
    omega
  · rw [halloc]
    rfl

/-- Where a refill reads. -/
theorem At.chunk_prefix (h : s.At size consumed kept)
    (halign : dataSource.requiresAlignedIo = false)
    (hread : s.readNextChunk dataSource = .ok s') :
    s'.buffered <+: dataSource.content.drop (u64 (consumed + kept)) := by
  obtain ⟨chunk, hchunk, rfl⟩ := readNextChunk_eq_ok_iff.mp hread
  have hpos : sub64 s.readOffset s.buffered.length = u64 (consumed + kept) := by
    simp only [h.readOffset, u64, sub64]
    omega
  rw [hpos] at hchunk
  have hlt : u64 (consumed + kept) < 2 ^ 64 := Nat.mod_lt _ (by decide)
  exact readChunk_prefix halign hlt hchunk

theorem At.copyChunks {destSize : Nat} (h : s.At size consumed kept) :
    (copyChunks dataSource s destSize).stream.At size
      (consumed + (copyChunks dataSource s destSize).bytes.length) kept := by
  fun_induction OsInputStream.copyChunks dataSource s destSize generalizing consumed with
  | case1 s destSize hloop e hread => simpa using h
  | case2 s destSize hloop s' hread n rest =>
    rename_i ih
    have hnext := (h.readNextChunk hread)
    simp only [hloop.1, List.length_nil, Nat.add_zero] at hnext
    have hn : n ≤ s'.buffered.length := Nat.min_le_left _ _
    simpa [Nat.add_assoc, Nat.min_eq_left hn] using ih (hnext.discardBuffered hn)
  | case3 s hloop => simpa using h
  | case4 s destSize hloop hdest => simpa using h

theorem At.readDirect {destSize : Nat} (h : s.At size consumed kept) (hempty : s.buffered = []) :
    (readDirect dataSource s destSize).stream.At size
      (consumed + (readDirect dataSource s destSize).bytes.length) kept := by
  fun_induction OsInputStream.readDirect dataSource s destSize generalizing consumed with
  | case1 s destSize hlarge e hread => simpa using h
  | case2 s destSize hlarge ioBuffer hread rest =>
    rename_i ih
    simpa [Nat.add_assoc] using ih (h.moveOn hempty ioBuffer.length) rfl
  | case3 s destSize hsmall => exact h.copyChunks

theorem At.doBulkRead {destSize : Nat} (h : s.At size consumed kept) (hempty : s.buffered = []) :
    (doBulkRead dataSource s destSize).stream.At size
      (consumed + (doBulkRead dataSource s destSize).bytes.length) kept := by
  unfold OsInputStream.doBulkRead
  split
  · simpa using h
  · exact h.readDirect hempty

theorem At.doDiscardInput (h : s.At size consumed kept) (hempty : s.buffered = []) (amount : Nat) :
    (s.doDiscardInput dataSource amount).stream.At size (consumed + amount) kept := by
  have hmoved := h.moveOn hempty amount
  simp only [OsInputStream.doDiscardInput]
  split
  · split
    case h_1 e hread => exact hmoved
    case h_2 s' hread => exact hmoved.readNextChunk hread
  · exact hmoved

theorem At.doRequireInput {minimumInputBufferSize requiredSize : Nat}
    (h : s.At size consumed kept) :
    (s.doRequireInput dataSource minimumInputBufferSize requiredSize).stream.At size consumed
      (kept + if (s.readNextChunk dataSource).isOk then s.buffered.length else 0) := by
  cases hread : s.readNextChunk dataSource with
  | error e =>
    simp only [OsInputStream.doRequireInput, hread]
    exact h
  | ok s' =>
    rw [doRequireInput_stream hread]
    exact h.readNextChunk hread

end OsInputStream

/-! ## Bytes -/

section Bytes

variable {content : Bytes} {a b : Bytes} {c : Nat}

/-- Strings behind each other. -/
theorem append_prefix_drop (ha : a <+: content.drop c) (hb : b <+: content.drop (c + a.length)) :
    a ++ b <+: content.drop c := by
  obtain ⟨rest, hrest⟩ := ha
  rw [← List.drop_drop, ← hrest, List.drop_left] at hb
  rw [← hrest]
  exact (List.prefix_append_right_inj a).mpr hb

theorem drop_prefix_drop (ha : a <+: content.drop c) (k : Nat) :
    a.drop k <+: content.drop (c + k) := by
  obtain ⟨rest, hrest⟩ := ha
  rw [← List.drop_drop, ← hrest, List.drop_append]
  exact List.prefix_append _ _

theorem prefix_drop_lt (ha : a <+: content.drop c) (hc : c < 2 ^ 64)
    (hcontent : content.length < 2 ^ 64) : c + a.length < 2 ^ 64 := by
  have hle := ha.length_le
  rw [List.length_drop] at hle
  omega

end Bytes

namespace OsInputStream

variable {consumed : Nat} (halign : dataSource.requiresAlignedIo = false)
  (hcontent : dataSource.content.length < 2 ^ 64)
include halign

/-- Nothing kept, a refill reads on from what has been consumed. -/
theorem At.refill_prefix (h : s.At dataSource.content.length consumed 0)
    (hlt : consumed < 2 ^ 64) (hread : s.readNextChunk dataSource = .ok s') :
    s'.buffered <+: dataSource.content.drop consumed := by
  have hchunk := h.chunk_prefix halign hread
  rwa [Nat.add_zero, u64, Nat.mod_eq_of_lt hlt] at hchunk

include hcontent

theorem At.copyChunks_prefix {destSize : Nat} (h : s.At dataSource.content.length consumed 0)
    (hpre : s.buffered <+: dataSource.content.drop consumed) (hlt : consumed < 2 ^ 64) :
    (s.copyChunks dataSource destSize).bytes <+: dataSource.content.drop consumed ∧
      (s.copyChunks dataSource destSize).stream.buffered <+:
        dataSource.content.drop (consumed + (s.copyChunks dataSource destSize).bytes.length) := by
  fun_induction OsInputStream.copyChunks dataSource s destSize generalizing consumed with
  | case1 s destSize hloop e hread => exact ⟨List.nil_prefix, hpre⟩
  | case2 s destSize hloop s' hread n rest =>
    rename_i ih
    have hnext := h.readNextChunk hread
    simp only [hloop.1, List.length_nil, Nat.add_zero] at hnext
    have hn : n ≤ s'.buffered.length := Nat.min_le_left _ _
    have hchunk := h.refill_prefix halign hlt hread
    have htaken : s'.buffered.take n <+: dataSource.content.drop consumed :=
      (List.take_prefix _ _).trans hchunk
    have hlen : (s'.buffered.take n).length = n := by simp [Nat.min_eq_left hn]
    have hlt' := prefix_drop_lt htaken hlt hcontent
    rw [hlen] at hlt'
    obtain ⟨hbytes, hrest⟩ := ih (hnext.discardBuffered hn) (drop_prefix_drop hchunk n) hlt'
    refine ⟨append_prefix_drop htaken (hlen.symm ▸ hbytes), ?_⟩
    rw [List.length_append, hlen, ← Nat.add_assoc]
    exact hrest
  | case3 s hloop => exact ⟨List.nil_prefix, hpre⟩
  | case4 s destSize hloop hdest => exact ⟨List.nil_prefix, hpre⟩

theorem At.readDirect_prefix {destSize : Nat} (h : s.At dataSource.content.length consumed 0)
    (hempty : s.buffered = []) (hlt : consumed < 2 ^ 64) :
    (s.readDirect dataSource destSize).bytes <+: dataSource.content.drop consumed ∧
      (s.readDirect dataSource destSize).stream.buffered <+:
        dataSource.content.drop (consumed + (s.readDirect dataSource destSize).bytes.length) := by
  fun_induction OsInputStream.readDirect dataSource s destSize generalizing consumed with
  | case1 s destSize hlarge e hread => exact ⟨List.nil_prefix, by simp [hempty]⟩
  | case2 s destSize hlarge ioBuffer hread rest =>
    rename_i ih
    have hoffset : s.readOffset = consumed := by
      rw [h.readOffset, hempty]
      exact Nat.mod_eq_of_lt hlt
    rw [hoffset] at hread
    have hchunk := readChunk_prefix halign hlt hread
    obtain ⟨hbytes, hrest⟩ :=
      ih (h.moveOn hempty ioBuffer.length) rfl (prefix_drop_lt hchunk hlt hcontent)
    refine ⟨append_prefix_drop hchunk hbytes, ?_⟩
    rw [List.length_append, ← Nat.add_assoc]
    exact hrest
  | case3 s destSize hsmall =>
    exact h.copyChunks_prefix halign hcontent (by simp [hempty]) hlt

/-- Inside of the file there is something to refill with. -/
theorem At.readNextChunk_ok (h : s.At dataSource.content.length consumed 0)
    (hwithin : consumed < dataSource.content.length) :
    ∃ s', s.readNextChunk dataSource = .ok s' ∧
      s'.buffered = dataSource.read consumed bufferSize := by
  have hpos : sub64 s.readOffset s.buffered.length = consumed := by
    simp only [h.readOffset, u64, sub64]
    omega
  have hpages : (if s.bufferAllocation = 0 then bufferSize else s.bufferAllocation) =
      bufferSize := by
    rw [h.allocated]
    rfl
  have hne : dataSource.read consumed bufferSize ≠ [] := by
    simp only [DataSource.read, ne_eq, List.take_eq_nil_iff, List.drop_eq_nil_iff]
    exact not_or.mpr ⟨by decide, by omega⟩
  refine ⟨_, readNextChunk_eq_ok_iff.mpr ⟨dataSource.read consumed bufferSize, ?_, rfl⟩, rfl⟩
  rw [hpos, hpages, readChunk_unaligned halign (by omega), if_neg hne]

omit halign in
/-- The input size is what the file has left. -/
theorem At.inputSize_eq (h : s.At dataSource.content.length consumed 0)
    (hwithin : consumed ≤ dataSource.content.length) :
    s.inputSize = dataSource.content.length - consumed := by
  have hinput := h.inputSize
  have hlt := h.inputSize_lt
  simp only [u64] at hinput
  omega

theorem At.doRequireInput_ok {minimumInputBufferSize requiredSize : Nat}
    (h : s.At dataSource.content.length consumed 0) (hmore : s.buffered.length < requiredSize)
    (hwithin : consumed + requiredSize ≤ dataSource.content.length)
    (hroom : requiredSize ≤ bufferSize) :
    (s.doRequireInput dataSource minimumInputBufferSize requiredSize).failure = none := by
  obtain ⟨s', hread, hbuffered⟩ := h.readNextChunk_ok halign hcontent (by omega)
  have henough : ¬s'.buffered.length < requiredSize := by
    rw [hbuffered, DataSource.read, List.length_take, List.length_drop]
    omega
  simp only [OsInputStream.doRequireInput, hread, if_neg henough]

theorem At.doDiscardInput_ok {amount : Nat} (h : s.At dataSource.content.length consumed 0)
    (hempty : s.buffered = []) (hwithin : consumed + amount ≤ dataSource.content.length) :
    (s.doDiscardInput dataSource amount).failure = none := by
  have hmoved := h.moveOn hempty amount
  simp only [OsInputStream.doDiscardInput]
  split
  case isFalse => rfl
  case isTrue hmore =>
    rw [hmoved.inputSize_eq hcontent hwithin] at hmore
    obtain ⟨s', hread, -⟩ := hmoved.readNextChunk_ok halign hcontent (by omega)
    rw [hread]

theorem At.copyChunks_ok {destSize : Nat} (h : s.At dataSource.content.length consumed 0)
    (hrest : s.buffered ≠ [] → destSize = 0)
    (hwithin : consumed + destSize ≤ dataSource.content.length) :
    (s.copyChunks dataSource destSize).failure = none := by
  fun_induction OsInputStream.copyChunks dataSource s destSize generalizing consumed with
  | case1 s destSize hloop e hread =>
    have hmore := hloop.2
    rw [h.inputSize_eq hcontent (by omega)] at hmore
    obtain ⟨s', hok, -⟩ := h.readNextChunk_ok halign hcontent (by omega)
    rw [hread] at hok
    cases hok
  | case2 s destSize hloop s' hread n rest =>
    rename_i ih
    have hnext := h.readNextChunk hread
    simp only [hloop.1, List.length_nil, Nat.add_zero] at hnext
    have hn : n ≤ s'.buffered.length ∧ n ≤ destSize :=
      ⟨Nat.min_le_left _ _, Nat.min_le_right _ _⟩
    refine ih (hnext.discardBuffered hn.1) (fun hleft => ?_) (by omega)
    -- what is left in the buffer was not asked for
    have hlt : n < s'.buffered.length := by
      simpa [OsInputStream.discardBuffered] using hleft
    omega
  | case3 s hloop => rfl
  | case4 s destSize hloop hdest =>
    have hempty : s.buffered = [] := by_contra fun hne => hdest (hrest hne)
    have hend : ¬0 < s.inputSize := fun hmore => hloop ⟨hempty, hmore⟩
    rw [h.inputSize_eq hcontent (by omega)] at hend
    omega

theorem At.readDirect_ok {destSize : Nat} (h : s.At dataSource.content.length consumed 0)
    (hempty : s.buffered = []) (hwithin : consumed + destSize ≤ dataSource.content.length) :
    (s.readDirect dataSource destSize).failure = none := by
  have hoffset : ∀ {s : OsInputStream} {consumed : Nat}, s.At dataSource.content.length consumed 0 →
      s.buffered = [] → consumed ≤ dataSource.content.length → s.readOffset = consumed := by
    intro s consumed h hempty hle
    rw [h.readOffset, hempty]
    exact Nat.mod_eq_of_lt (Nat.lt_of_le_of_lt hle hcontent)
  fun_induction OsInputStream.readDirect dataSource s destSize generalizing consumed with
  | case1 s destSize hlarge e hread =>
    have hne : dataSource.read consumed destSize ≠ [] := by
      simp only [DataSource.read, ne_eq, List.take_eq_nil_iff, List.drop_eq_nil_iff]
      omega
    rw [hoffset h hempty (by omega), readChunk_unaligned halign (by omega), if_neg hne] at hread
    cases hread
  | case2 s destSize hlarge ioBuffer hread rest =>
    rename_i ih
    have hle := readChunk_length_le hread
    exact ih (h.moveOn hempty ioBuffer.length) rfl (by omega)
  | case3 s destSize hsmall =>
    exact h.copyChunks_ok halign hcontent (fun hne => absurd hempty hne) hwithin

end OsInputStream

/-! ## Runs -/

/-- The bytes that a call skips without having seen them. -/
def StreamCall.skipped : StreamCall → Nat
  | .doDiscardInput amount => amount
  | _ => 0

namespace Reading

/-- The calls that read from the file. -/
def ReadsFile : StreamCall → Reading → Prop
  | .discardBuffered _, _ => False
  | .doRequireInput _, _ => True
  | .doDiscardInput amount, r => 0 < (r.stream.moveOn amount).inputSize
  | .doBulkRead destSize, r => bufferSize < destSize ∨ 0 < r.stream.inputSize

/-- The file is read only as long as no refill has kept anything, and what is consumed and
skipped over is less than the offsets can count. -/
def ReadsBeforeKept (call : StreamCall) (r : Reading) : Prop :=
  (ReadsFile call r → r.kept = 0) ∧ r.consumed + call.skipped < 2 ^ 64

instance : ∀ call r, Decidable (ReadsFile call r)
  | .discardBuffered _, _ => instDecidableFalse
  | .doRequireInput _, _ => instDecidableTrue
  | .doDiscardInput _, _ => inferInstanceAs (Decidable (_ < _))
  | .doBulkRead _, _ => inferInstanceAs (Decidable (_ < _ ∨ _ < _))

instance (call : StreamCall) (r : Reading) : Decidable (ReadsBeforeKept call r) :=
  inferInstanceAs (Decidable (_ ∧ _))

structure Inv (content : Bytes) (r : Reading) : Prop where
  position : r.stream.At content.length r.consumed r.kept
  faithful : r.Faithful content
  consumed_lt : r.consumed < 2 ^ 64

variable {minimumInputBufferSize : Nat} {content : Bytes} {r r' : Reading} {call : StreamCall}
  {calls : List StreamCall}

theorem Faithful.reply {reply : Reply} {stream : OsInputStream} {consumed kept : Nat}
    (h : r.Faithful content) (hreply : reply.Faithful content)
    (hbuffered : stream.buffered <+: content.drop consumed) :
    Faithful content ⟨stream, consumed, r.replies ++ [reply], kept⟩ where
  buffered := hbuffered
  replies := by
    simp only [List.mem_append, List.mem_singleton]
    rintro other (hold | rfl)
    · exact h.replies other hold
    · exact hreply

theorem Inv.discardBuffered {amount : Nat} (h : Inv dataSource.content r)
    (hcontent : dataSource.content.length < 2 ^ 64)
    (hstep : step dataSource minimumInputBufferSize (.discardBuffered amount) r = some r') :
    Inv dataSource.content r' := by
  simp only [step, Option.ite_none_right_eq_some, Option.some.injEq] at hstep
  obtain ⟨hle, rfl⟩ := hstep
  have htaken : r.stream.buffered.take amount <+: dataSource.content.drop r.consumed :=
    (List.take_prefix _ _).trans h.faithful.buffered
  have hlt := prefix_drop_lt htaken h.consumed_lt hcontent
  rw [List.length_take, Nat.min_eq_left hle] at hlt
  have hreply : Reply.Faithful dataSource.content
      ⟨.discardBuffered amount, r.consumed, none, r.stream.buffered.take amount⟩ :=
    ⟨htaken, fun _ => by rw [StreamCall.Delivered, List.length_take, Nat.min_eq_left hle],
      fun _ => rfl⟩
  exact ⟨h.position.discardBuffered hle,
    h.faithful.reply hreply (drop_prefix_drop h.faithful.buffered amount), hlt⟩

section

variable (halign : dataSource.requiresAlignedIo = false)
  (hcontent : dataSource.content.length < 2 ^ 64)
include halign hcontent

theorem Inv.doRequireInput {requiredSize : Nat} (h : Inv dataSource.content r)
    (hkept : r.kept = 0)
    (hstep : step dataSource minimumInputBufferSize (.doRequireInput requiredSize) r = some r') :
    Inv dataSource.content r' := by
  simp only [step, Option.ite_none_right_eq_some, Option.some.injEq] at hstep
  obtain ⟨hmore, rfl⟩ := hstep
  have hposition := h.position
  rw [hkept] at hposition
  have hbuffered :
      (r.stream.doRequireInput dataSource minimumInputBufferSize requiredSize).stream.buffered <+:
        dataSource.content.drop r.consumed := by
    cases hread : r.stream.readNextChunk dataSource with
    | error e =>
      simp only [OsInputStream.doRequireInput, hread]
      exact h.faithful.buffered
    | ok s =>
      rw [OsInputStream.doRequireInput_stream hread]
      exact hposition.refill_prefix halign h.consumed_lt hread
  refine ⟨h.position.doRequireInput, h.faithful.reply ⟨hbuffered, ?_, ?_⟩ hbuffered, h.consumed_lt⟩
  · exact OsInputStream.doRequireInput_length
  · rintro ⟨hwithin, hroom⟩
    exact hposition.doRequireInput_ok halign hcontent hmore hwithin hroom

theorem Inv.doDiscardInput {amount : Nat} (h : Inv dataSource.content r)
    (hcond : ReadsBeforeKept (.doDiscardInput amount) r)
    (hstep : step dataSource minimumInputBufferSize (.doDiscardInput amount) r = some r') :
    Inv dataSource.content r' := by
  simp only [step, Option.ite_none_right_eq_some, Option.some.injEq] at hstep
  obtain ⟨hempty, rfl⟩ := hstep
  have hmoved := h.position.moveOn hempty amount
  have hbuffered : (r.stream.doDiscardInput dataSource amount).stream.buffered <+:
      dataSource.content.drop (r.consumed + amount) := by
    simp only [OsInputStream.doDiscardInput]
    split
    case isFalse hend => exact List.nil_prefix
    case isTrue hmore =>
      rw [hcond.1 hmore] at hmoved
      split
      case h_1 e hread => exact List.nil_prefix
      case h_2 s hread => exact hmoved.refill_prefix halign hcond.2 hread
  refine ⟨h.position.doDiscardInput hempty amount,
    h.faithful.reply ⟨List.nil_prefix, fun _ => trivial, fun hwithin => ?_⟩ hbuffered, hcond.2⟩
  by_cases hmore : 0 < (r.stream.moveOn amount).inputSize
  · have hposition := h.position
    rw [hcond.1 hmore] at hposition
    exact hposition.doDiscardInput_ok halign hcontent hempty hwithin
  · simp only [OsInputStream.doDiscardInput, if_neg hmore]

theorem Inv.doBulkRead {destSize : Nat} (h : Inv dataSource.content r)
    (hcond : ReadsBeforeKept (.doBulkRead destSize) r)
    (hstep : step dataSource minimumInputBufferSize (.doBulkRead destSize) r = some r') :
    Inv dataSource.content r' := by
  simp only [step, Option.ite_none_right_eq_some, Option.some.injEq] at hstep
  obtain ⟨hempty, rfl⟩ := hstep
  have ⟨hread, hsucceeds⟩ : ((r.stream.doBulkRead dataSource destSize).bytes <+:
        dataSource.content.drop r.consumed ∧
      (r.stream.doBulkRead dataSource destSize).stream.buffered <+:
        dataSource.content.drop
          (r.consumed + (r.stream.doBulkRead dataSource destSize).bytes.length)) ∧
      (r.consumed + destSize ≤ dataSource.content.length →
        (r.stream.doBulkRead dataSource destSize).failure = none) := by
    simp only [OsInputStream.doBulkRead, halign, Bool.false_eq_true, if_false]
    by_cases hreads : ReadsFile (.doBulkRead destSize) r
    · have hposition := h.position
      rw [hcond.1 hreads] at hposition
      exact ⟨hposition.readDirect_prefix halign hcontent hempty h.consumed_lt,
        hposition.readDirect_ok halign hcontent hempty⟩
    · -- nothing is read, and nothing is left of the file
      obtain ⟨hsmall, hend⟩ := not_or.mp hreads
      have hinput := h.position.inputSize
      simp only [u64] at hinput
      rw [OsInputStream.readDirect, if_neg hsmall, OsInputStream.copyChunks,
        dif_neg fun hloop => hend hloop.2]
      have hnone : ∀ t : Transfer, t.bytes = [] → t.stream = r.stream →
          t.bytes <+: dataSource.content.drop r.consumed ∧
            t.stream.buffered <+: dataSource.content.drop (r.consumed + t.bytes.length) := by
        intro t hbytes hstream
        rw [hbytes, hstream, hempty]
        exact ⟨List.nil_prefix, List.nil_prefix⟩
      split
      case isTrue => exact ⟨hnone _ rfl rfl, fun _ => rfl⟩
      case isFalse hdest =>
        refine ⟨hnone _ rfl rfl, fun hwithin => ?_⟩
        omega
  exact ⟨h.position.doBulkRead hempty,
    h.faithful.reply ⟨hread.1, OsInputStream.doBulkRead_length, hsucceeds⟩ hread.2,
    prefix_drop_lt hread.1 h.consumed_lt hcontent⟩

theorem Inv.step (hcond : ReadsBeforeKept call r) (h : Inv dataSource.content r)
    (hstep : step dataSource minimumInputBufferSize call r = some r') :
    Inv dataSource.content r' := by
  cases call with
  | discardBuffered amount => exact h.discardBuffered hcontent hstep
  | doRequireInput requiredSize => exact h.doRequireInput halign hcontent (hcond.1 trivial) hstep
  | doDiscardInput amount => exact h.doDiscardInput halign hcontent hcond hstep
  | doBulkRead destSize => exact h.doBulkRead halign hcontent hcond hstep

theorem Inv.start {pages : Bytes}
    (hcreate : OsInputStream.create pages dataSource dataSource.content.length = .ok s) :
    Inv dataSource.content (start s) := by
  obtain ⟨-, -, -, rfl⟩ := (OsInputStream.create_eq_ok_iff halign).mp hcreate
  refine ⟨⟨?_, rfl, hcontent, rfl⟩, ⟨List.take_prefix _ _, nofun⟩, Nat.two_pow_pos 64⟩
  have hle : min dataSource.content.length bufferSize < 2 ^ 64 :=
    Nat.lt_of_le_of_lt (Nat.min_le_left _ _) hcontent
  simp only [Reading.start, OsInputStream.opened, List.length_take, Nat.zero_add, Nat.add_zero]
  rw [u64, Nat.min_comm bufferSize, Nat.mod_eq_of_lt hle]

/-- Until a refill has kept something, the stream delivers the file unchanged. -/
theorem delivers_unchanged {pages : Bytes}
    (hcreate : OsInputStream.create pages dataSource dataSource.content.length = .ok s)
    (hcond : Along (step dataSource minimumInputBufferSize) ReadsBeforeKept calls (start s))
    (hrun : run (step dataSource minimumInputBufferSize) calls (start s) = some r) :
    r.Faithful dataSource.content := by
  have hstep : ∀ call r r', ReadsBeforeKept call r → Inv dataSource.content r →
      step dataSource minimumInputBufferSize call r = some r' → Inv dataSource.content r' :=
    fun _ _ _ hcond h => h.step halign hcontent hcond
  exact (Runs.invariant hstep hcond (Inv.start halign hcontent hcreate) hrun).faithful

end

/-- A caller that leaves `left` bytes of a full buffer and requires two gets the file from those
bytes on, but the stream goes on so many bytes too far. -/
theorem refill (halign : dataSource.requiresAlignedIo = false) {q : Nat} (left : Nat)
    (hleft : left < 2) (hfull : r.stream.buffered.length = bufferSize)
    (halloc : r.stream.bufferAllocation = bufferSize) (hoffset : r.stream.readOffset = q + left)
    (hq : q < dataSource.content.length) (hcontent : dataSource.content.length < 2 ^ 63) :
    ∃ r', run (step dataSource minimumInputBufferSize)
        [.discardBuffered (bufferSize - left), .doRequireInput 2] r = some r' ∧
      r'.stream.buffered = dataSource.read q bufferSize ∧
      r'.stream.bufferAllocation = bufferSize ∧
      r'.stream.readOffset = q + left + r'.stream.buffered.length ∧
      r'.consumed = r.consumed + (bufferSize - left) ∧ r'.kept = r.kept + left := by
  have hsize : bufferSize = 65536 := rfl
  have hrest : (r.stream.discardBuffered (bufferSize - left)).buffered.length = left := by
    rw [OsInputStream.discardBuffered, List.length_drop, hfull]
    omega
  have hread :=
    OsInputStream.readNextChunk_within (s := r.stream.discardBuffered (bufferSize - left))
      halign halloc (by rw [hrest]; exact hoffset) hq (by omega)
  refine ⟨_, run_cons_eq_some.mpr ⟨_, if_pos (by omega),
    run_cons_eq_some.mpr ⟨_, if_pos (by rw [hrest]; exact hleft), rfl⟩⟩, ?_⟩
  rw [OsInputStream.doRequireInput_stream hread]
  refine ⟨rfl, halloc, congrArg (· + _) hoffset, rfl, ?_⟩
  rw [hread, hrest]
  rfl

/-- A file of two chunks and one byte, a single one among zeros. -/
def lateOne : DataSource where
  isReadable := true
  isSeekable := true
  requiresAlignedIo := false
  content := List.replicate 131070 0 ++ [1, 0, 0]

theorem lateOne_length : lateOne.content.length = 131073 := by
  rw [lateOne, List.length_append, List.length_replicate, List.length_cons, List.length_cons,
    List.length_singleton]

theorem lateOne_drop (k : Nat) : lateOne.content.drop (131070 + k) = [1, 0, 0].drop k := by
  rw [lateOne, List.drop_append, List.length_replicate, Nat.add_sub_cancel_left,
    List.drop_of_length_le (by rw [List.length_replicate]; omega), List.nil_append]

theorem lateOne_created :
    OsInputStream.create [] lateOne lateOne.content.length = .ok (.opened lateOne.content) := by
  have hne : lateOne.content ≠ [] := List.ne_nil_of_length_pos (by rw [lateOne_length]; decide)
  exact (OsInputStream.create_eq_ok_iff rfl).mpr ⟨rfl, rfl, hne, rfl⟩

theorem lateOne_opened : (start (.opened lateOne.content)).stream.buffered.length = bufferSize ∧
    (start (.opened lateOne.content)).stream.readOffset = 65536 := by
  rw [start, OsInputStream.opened, List.length_take, lateOne_length]
  decide

/-- A caller that uses up the buffer before it makes another call. -/
theorem along_usedUp {n : Nat} (hskipped : call.skipped = 0) (hkept : r.kept = 0)
    (hconsumed : r.consumed + n < 2 ^ 64) :
    Along (step dataSource minimumInputBufferSize) ReadsBeforeKept
      [.discardBuffered n, call] r := by
  refine ⟨⟨nofun, Nat.lt_of_le_of_lt (Nat.le_add_right _ n) hconsumed⟩, fun r' hstep => ?_⟩
  simp only [step, Option.ite_none_right_eq_some, Option.some.injEq] at hstep
  obtain ⟨-, rfl⟩ := hstep
  exact ⟨⟨fun _ => hkept, by rw [hskipped]; exact hconsumed⟩, fun _ _ => trivial⟩

/-- The file is read in three chunks, of which nothing is kept. -/
theorem delivers_unchanged_late :
    ∃ r, OsInputStream.create [] lateOne lateOne.content.length = .ok (.opened lateOne.content) ∧
      run (step lateOne 40)
        [.discardBuffered bufferSize, .doRequireInput 2,
          .discardBuffered bufferSize, .doBulkRead 1]
        (start (.opened lateOne.content)) = some r ∧
      r.Faithful lateOne.content := by
  obtain ⟨hfull, hoffset⟩ := lateOne_opened
  obtain ⟨r₁, hrun₁, hbuffered₁, -, -, hconsumed₁, hkept₁⟩ :=
    refill (r := start (.opened lateOne.content)) rfl 0 (by decide) hfull rfl hoffset
      (by rw [lateOne_length]; decide) (by rw [lateOne_length]; decide)
  have hfull₁ : r₁.stream.buffered.length = bufferSize := by
    rw [hbuffered₁, DataSource.read, List.length_take, List.length_drop, lateOne_length]
    decide
  have hused : (r₁.stream.discardBuffered bufferSize).buffered = [] :=
    List.drop_eq_nil_of_le hfull₁.le
  obtain ⟨r₂, hrun₂⟩ : ∃ r₂, run (step lateOne 40)
      [.discardBuffered bufferSize, .doBulkRead 1] r₁ = some r₂ :=
    ⟨_, run_cons_eq_some.mpr ⟨_, if_pos hfull₁.ge,
      run_cons_eq_some.mpr ⟨_, if_pos hused, rfl⟩⟩⟩
  have hfirst : Along (step lateOne 40) ReadsBeforeKept
      [.discardBuffered bufferSize, .doRequireInput 2] (start (.opened lateOne.content)) :=
    along_usedUp rfl rfl (by decide)
  have hsecond : Along (step lateOne 40) ReadsBeforeKept
      [.discardBuffered bufferSize, .doBulkRead 1] r₁ :=
    along_usedUp rfl hkept₁ (by rw [hconsumed₁]; decide)
  have hrun := (Runs.run_append hrun₁).trans hrun₂
  exact ⟨r₂, lateOne_created, hrun, delivers_unchanged rfl (by rw [lateOne_length]; decide)
    lateOne_created (hfirst.trans hrun₁ hsecond) hrun⟩

/-- The caller has consumed 131070 bytes, and the buffer begins behind the byte that follows. -/
theorem not_delivers_unchanged :
    ∃ r, OsInputStream.create [] lateOne lateOne.content.length = .ok (.opened lateOne.content) ∧
      run (step lateOne 40)
        [.discardBuffered (bufferSize - 1), .doRequireInput 2,
          .discardBuffered (bufferSize - 1), .doRequireInput 2]
        (start (.opened lateOne.content)) = some r ∧
      ¬r.Faithful lateOne.content := by
  obtain ⟨hfull, hoffset⟩ := lateOne_opened
  obtain ⟨r₁, hrun₁, hbuffered₁, halloc₁, hoffset₁, hconsumed₁, -⟩ :=
    refill (r := start (.opened lateOne.content)) rfl 1 (by decide) hfull rfl hoffset
      (by rw [lateOne_length]; decide) (by rw [lateOne_length]; decide)
  have hfull₁ : r₁.stream.buffered.length = bufferSize := by
    rw [hbuffered₁, DataSource.read, List.length_take, List.length_drop, lateOne_length]
    decide
  have hnext : r₁.stream.readOffset = 131071 + 1 := by
    rw [hoffset₁, hfull₁]
    decide
  obtain ⟨r₂, hrun₂, hbuffered₂, -, -, hconsumed₂, -⟩ :=
    refill rfl 1 (by decide) hfull₁ halloc₁ hnext
      (by rw [lateOne_length]; decide) (by rw [lateOne_length]; decide)
  refine ⟨r₂, lateOne_created, (Runs.run_append hrun₁).trans hrun₂, fun hfaithful => ?_⟩
  have hseen := hfaithful.buffered
  have hconsumed : r₂.consumed = 131070 + 0 := by
    rw [hconsumed₂, hconsumed₁, start]
    decide
  rw [hbuffered₂, hconsumed, lateOne_drop, DataSource.read, lateOne_drop 1] at hseen
  revert hseen
  decide

end Reading

end Deeplog.Detail

import Deeplog.Codec.Primitives
import Deeplog.Lib.Framing
import Deeplog.Lib.Runs

/-!
# The buffer bus

A bus that keeps messages until they are consumed, in a mapped file of fixed size. Each message is
a binary item of CBOR: `allocate_record_buffer_inplace` emits its head and hands out the bytes
behind it, `consume_messages` parses one head after the other up to the write offset. What has not
been written through the buffer of a message reads as null.
-/

namespace Deeplog.Bus

open Cbor (Bytes)
open Codec (Parse ItemHead TypeCode Primitives)

/-- What deeppack does for the heads of binary items. -/
structure BinaryHeads where
  varUintEncodedSize : Nat → Nat
  emitBinary : Nat → Bytes
  parseItemHead : Parse ItemHead
  varUintEncodedSize_mem : ∀ n, 1 ≤ varUintEncodedSize n ∧ varUintEncodedSize n ≤ 9
  emitBinary_length : ∀ n < 2 ^ 64, (emitBinary n).length = varUintEncodedSize n
  parseItemHead_binary : ∀ n rest, n < 2 ^ 64 → ∃ encodedLength,
    parseItemHead (emitBinary n ++ rest) = some (⟨.binary, n, false, encodedLength⟩, rest)

/-- Heads as CBOR has them, in their shortest form. -/
def BinaryHeads.plain : BinaryHeads where
  varUintEncodedSize n := (Cbor.encodeHead 2 n).length
  emitBinary := Cbor.encodeHead 2
  parseItemHead := Primitives.plain.parseItemHead
  varUintEncodedSize_mem n := ⟨(Cbor.encodeHead_length 2 n).1, (Cbor.encodeHead_length 2 n).2.1⟩
  emitBinary_length _ _ := rfl
  parseItemHead_binary n rest hn := by
    obtain ⟨info, hread, -⟩ := Cbor.readHead_encodeHead (by decide : 2 < 8) hn rest
    exact ⟨_, Parse.bind_of_eq hread⟩

inductive Errc where
  | bad
  | notEnoughSpace
  /-- What deeppack reports for an item that cannot be parsed. -/
  | item
  deriving DecidableEq

/-- `dp::type_code::null` -/
def null : UInt8 := 0xf6

/-- `std::memcpy` to an address of the mapped file. -/
def memcpy (buffer : Bytes) (offset : Nat) (src : Bytes) : Bytes :=
  buffer.take offset ++ src ++ buffer.drop (offset + src.length)

/-- What is left of an `output_buffer`, as an offset in the mapped file. -/
structure OutputBuffer where
  offset : Nat
  size : Nat
  deriving DecidableEq

/-- A write of bytes one after the other; `record_output_buffer` cannot grow. -/
def OutputBuffer.bulkWrite (self : OutputBuffer) (src buffer : Bytes) : OutputBuffer × Bytes :=
  if src.length ≤ self.size then
    (⟨self.offset + src.length, self.size - src.length⟩, memcpy buffer self.offset src)
  else (self, buffer)

/-- `bufferbus_handle`, where `mBuffer` is all of the mapped file. -/
structure BufferbusHandle where
  buffer : Bytes
  writeOffset : Nat
  length_lt : buffer.length < 2 ^ 64
  writeOffset_le : writeOffset ≤ buffer.length

/-- `bufferbus_handle::bufferbus`, with the size that truncating the file leads to. -/
def bufferbus (truncate : UInt64 → Except Errc UInt64) (bufferSize : UInt64) :
    Except Errc BufferbusHandle := do
  let truncatedSize ← truncate bufferSize
  if truncatedSize ≠ bufferSize then throw .bad
  pure {
    buffer := List.replicate bufferSize.toNat null
    writeOffset := 0
    length_lt := by
      rw [List.length_replicate]
      exact bufferSize.toNat_lt
    writeOffset_le := Nat.zero_le _ }

theorem length_bulkWrite {out : OutputBuffer} {buffer : Bytes}
    (h : out.offset + out.size ≤ buffer.length) (src : Bytes) :
    (out.bulkWrite src buffer).2.length = buffer.length := by
  rw [OutputBuffer.bulkWrite]
  split
  · simp [memcpy]
    omega
  · rfl

namespace BufferbusHandle

variable (dp : BinaryHeads)

def allocateRecordBufferInplace (messageSize : UInt64) (self : BufferbusHandle) :
    Except Errc OutputBuffer × BufferbusHandle :=
  let overhead := dp.varUintEncodedSize messageSize.toNat
  let totalSize := (overhead + messageSize.toNat) % 2 ^ 64
  if h : totalSize > self.buffer.length - self.writeOffset then (.error .notEnoughSpace, self)
  else
    let out : OutputBuffer := ⟨self.writeOffset, totalSize⟩
    have hout : out.offset + out.size ≤ self.buffer.length := by
      have := self.writeOffset_le
      simp only [out]
      omega
    let emitted := out.bulkWrite (dp.emitBinary messageSize.toNat) self.buffer
    have hlength : emitted.2.length = self.buffer.length := length_bulkWrite hout _
    (.ok emitted.1, {
      buffer := emitted.2
      writeOffset := self.writeOffset + totalSize
      length_lt := hlength ▸ self.length_lt
      writeOffset_le := hlength ▸ hout })

/-- A store to the mapped file. -/
def store (address : Nat) (value : UInt8) (self : BufferbusHandle) : BufferbusHandle where
  buffer := self.buffer.set address value
  writeOffset := self.writeOffset
  length_lt := by
    rw [List.length_set]
    exact self.length_lt
  writeOffset_le := by
    rw [List.length_set]
    exact self.writeOffset_le

/-- The loop of `consume_messages`: the calls of the consumer, and the error that ends it. -/
def consumeLoop : (fuel : Nat) → (contentStream : Bytes) → List (List Bytes) × Except Errc Unit
  | _, [] => ([], .ok ())
  | 0, _ :: _ => ([], .error .item)
  | fuel + 1, byte :: bytes =>
    match dp.parseItemHead (byte :: bytes) with
    | none => ([], .error .item)
    | some (msgInfo, contentStream) =>
      -- bad blocks are ignored, with everything behind them
      if msgInfo.type ≠ .binary ∨ msgInfo.indefinite ∨ contentStream.length < msgInfo.value then
        ([], .ok ())
      else
        let (msgs, result) := consumeLoop fuel (contentStream.drop msgInfo.value)
        ([contentStream.take msgInfo.value] :: msgs, result)

def clearContent (self : BufferbusHandle) : BufferbusHandle where
  buffer := List.replicate self.buffer.length null
  writeOffset := 0
  length_lt := by
    rw [List.length_replicate]
    exact self.length_lt
  writeOffset_le := Nat.zero_le _

/-- `consume_messages`: what the consumer is called with, the result and the handle after it. -/
def consumeMessages (self : BufferbusHandle) :
    (List (List Bytes) × Except Errc Unit) × BufferbusHandle :=
  let contentStream := self.buffer.take self.writeOffset
  let (msgs, result) := consumeLoop dp contentStream.length contentStream
  match result with
  | .error e => ((msgs, .error e), self)
  | .ok _ => ((msgs, .ok ()), self.clearContent)

end BufferbusHandle

/-! ## Runs -/

inductive Op where
  | allocate (messageSize : UInt64)
  /-- A byte of the message that was allocated as the `i`-th since the last consume. -/
  | write (i o : Nat) (value : UInt8)
  | consume

inductive Reply where
  | allocated (result : Except Errc Unit)
  | written
  | consumed (msgs : List (List Bytes)) (result : Except Errc Unit)

/-- A bus with the output buffers of the messages it holds. -/
structure System where
  bus : BufferbusHandle
  outputs : List OutputBuffer

variable (dp : BinaryHeads)

def System.step : Op → System → Reply × System
  | .allocate messageSize, s =>
    match s.bus.allocateRecordBufferInplace dp messageSize with
    | (.error e, bus) => (.allocated (.error e), { s with bus := bus })
    | (.ok out, bus) => (.allocated (.ok ()), ⟨bus, s.outputs ++ [out]⟩)
  | .write i o value, s =>
    match s.outputs[i]? with
    | some out =>
      (.written, if o < out.size then { s with bus := s.bus.store (out.offset + o) value } else s)
    | none => (.written, s)
  | .consume, s =>
    let ((msgs, result), bus) := s.bus.consumeMessages dp
    (.consumed msgs result, ⟨bus, []⟩)

/-! ## The bounded queue -/

/-- What the bus is for: messages since the last consume, in a bounded space. -/
structure BoundedFifo where
  capacity : Nat
  messages : List Bytes

namespace BoundedFifo

/-- A message with its head. -/
def cost (messageSize : Nat) : Nat := dp.varUintEncodedSize messageSize + messageSize

def remaining (q : BoundedFifo) : Nat :=
  q.capacity - (q.messages.map fun m => cost dp m.length).sum

def step : Op → BoundedFifo → Reply × BoundedFifo
  | .allocate messageSize, q =>
    if q.remaining dp < cost dp messageSize.toNat then (.allocated (.error .notEnoughSpace), q)
    else (.allocated (.ok ()),
      { q with messages := q.messages ++ [List.replicate messageSize.toNat null] })
  | .write i o value, q =>
    (.written, { q with messages := q.messages.modify i fun m => m.set o value })
  | .consume, q => (.consumed (q.messages.map ([·])) (.ok ()), { q with messages := [] })

end BoundedFifo

/-! ## The refinement -/

/-- The messages of the bus as frames. -/
def format : Framing.Format UInt8 where
  head := dp.emitBinary
  readHead bs := match dp.parseItemHead bs with
    | some (msgInfo, rest) =>
      if msgInfo.type = .binary ∧ ¬msgInfo.indefinite then some (msgInfo.value, rest) else none
    | none => none
  Fits n := n < 2 ^ 64
  head_pos n hn := by
    rw [dp.emitBinary_length n hn]
    exact (dp.varUintEncodedSize_mem n).1
  readHead_head n rest hn := by
    obtain ⟨_, hparse⟩ := dp.parseItemHead_binary n rest hn
    simp [hparse]

/-- The queue that a bus holds. -/
structure Represents (s : System) (q : BoundedFifo) : Prop where
  fits : ∀ m ∈ q.messages, m.length < 2 ^ 64
  writeOffset_eq : s.bus.writeOffset = ((format dp).frames q.messages).length
  length_eq : s.bus.buffer.length = q.capacity
  buffer_eq : s.bus.buffer = (format dp).frames q.messages ++
    List.replicate (q.capacity - ((format dp).frames q.messages).length) null
  outputs_eq : ∀ i, s.outputs[i]? = q.messages[i]?.map fun m =>
    OutputBuffer.mk ((format dp).position q.messages i) m.length

section

variable {dp : BinaryHeads} {s : System} {q : BoundedFifo} {bus : BufferbusHandle}
  {messages : List Bytes} {messageSize : UInt64}

theorem format_cost {n : Nat} (hn : n < 2 ^ 64) : (format dp).cost n = BoundedFifo.cost dp n := by
  rw [Framing.Format.cost, BoundedFifo.cost, ← dp.emitBinary_length n hn]
  rfl

theorem Represents.remaining (h : Represents dp s q) :
    q.remaining dp = q.capacity - ((format dp).frames q.messages).length := by
  have hcost : q.messages.map (fun m => (format dp).cost m.length) =
      q.messages.map fun m => BoundedFifo.cost dp m.length :=
    List.map_congr_left fun m hm => format_cost (h.fits m hm)
  rw [BoundedFifo.remaining, Framing.Format.length_frames, hcost]

theorem Represents.remaining_eq (h : Represents dp s q) :
    s.bus.buffer.length - s.bus.writeOffset = q.remaining dp := by
  rw [h.remaining, h.length_eq, h.writeOffset_eq]

/-- The head and the payload of a message of less than `2 ^ 63` bytes do not overflow. -/
theorem totalSize_eq (hsize : messageSize.toNat < 2 ^ 63) :
    (dp.varUintEncodedSize messageSize.toNat + messageSize.toNat) % 2 ^ 64 =
      BoundedFifo.cost dp messageSize.toNat := by
  have := (dp.varUintEncodedSize_mem messageSize.toNat).2
  rw [BoundedFifo.cost, Nat.mod_eq_of_lt (by omega)]

theorem allocate_of_lt (hsize : messageSize.toNat < 2 ^ 63)
    (h : bus.buffer.length - bus.writeOffset < BoundedFifo.cost dp messageSize.toNat) :
    bus.allocateRecordBufferInplace dp messageSize = (.error .notEnoughSpace, bus) := by
  rw [BufferbusHandle.allocateRecordBufferInplace]
  simp only [totalSize_eq hsize]
  exact dif_pos h

theorem allocate_of_le (hsize : messageSize.toNat < 2 ^ 63)
    (h : BoundedFifo.cost dp messageSize.toNat ≤ bus.buffer.length - bus.writeOffset) :
    ∃ bus', bus.allocateRecordBufferInplace dp messageSize =
        (.ok ⟨bus.writeOffset + (dp.emitBinary messageSize.toNat).length, messageSize.toNat⟩,
          bus') ∧
      bus'.buffer = memcpy bus.buffer bus.writeOffset (dp.emitBinary messageSize.toNat) ∧
      bus'.writeOffset = bus.writeOffset + BoundedFifo.cost dp messageSize.toNat := by
  have hhead := dp.emitBinary_length messageSize.toNat messageSize.toNat_lt
  have hfit : (dp.emitBinary messageSize.toNat).length ≤
      BoundedFifo.cost dp messageSize.toNat := by
    rw [hhead]
    exact Nat.le_add_right ..
  have hrest : BoundedFifo.cost dp messageSize.toNat -
      (dp.emitBinary messageSize.toNat).length = messageSize.toNat := by
    rw [hhead]
    exact Nat.add_sub_cancel_left ..
  rw [BufferbusHandle.allocateRecordBufferInplace]
  simp only [totalSize_eq hsize]
  rw [dif_neg (by omega)]
  simp [OutputBuffer.bulkWrite, hfit, hrest]

/-- A message is allocated behind the others, all of it null. -/
theorem memcpy_head {k : Nat} (hmessageSize : messageSize.toNat < 2 ^ 64)
    (hk : BoundedFifo.cost dp messageSize.toNat ≤ k) :
    memcpy ((format dp).frames messages ++ List.replicate k null)
        ((format dp).frames messages).length (dp.emitBinary messageSize.toNat) =
      (format dp).frames (messages ++ [List.replicate messageSize.toNat null]) ++
        List.replicate (k - BoundedFifo.cost dp messageSize.toNat) null := by
  have hhead := dp.emitBinary_length messageSize.toNat hmessageSize
  have hsplit : k - (dp.emitBinary messageSize.toNat).length =
      messageSize.toNat + (k - BoundedFifo.cost dp messageSize.toNat) := by
    rw [BoundedFifo.cost] at *
    omega
  have hframe : (format dp).frame (List.replicate messageSize.toNat null) =
      dp.emitBinary messageSize.toNat ++ List.replicate messageSize.toNat null := by
    rw [Framing.Format.frame, List.length_replicate]
    rfl
  rw [memcpy, List.take_left, List.drop_append, List.drop_of_length_le (Nat.le_add_right ..),
    List.drop_replicate, Nat.add_sub_cancel_left, hsplit, List.replicate_add,
    Framing.Format.frames_append, Framing.Format.frames_cons, hframe, Framing.Format.frames_nil]
  simp

theorem Represents.length_outputs (h : Represents dp s q) :
    s.outputs.length = q.messages.length := by
  apply Nat.le_antisymm
  · apply List.getElem?_eq_none_iff.mp
    rw [h.outputs_eq, List.getElem?_eq_none (Nat.le_refl _), Option.map_none]
  · apply List.getElem?_eq_none_iff.mp
    have hnone := h.outputs_eq s.outputs.length
    rw [List.getElem?_eq_none (Nat.le_refl _)] at hnone
    exact Option.map_eq_none_iff.mp hnone.symm

theorem Represents.frames_le (h : Represents dp s q) :
    ((format dp).frames q.messages).length ≤ q.capacity := by
  rw [← h.writeOffset_eq, ← h.length_eq]
  exact s.bus.writeOffset_le

/-- A message that has been allocated is the last one. -/
theorem Represents.push (h : Represents dp s q)
    (hcost : BoundedFifo.cost dp messageSize.toNat ≤ q.remaining dp)
    (hbuffer : bus.buffer =
      memcpy s.bus.buffer s.bus.writeOffset (dp.emitBinary messageSize.toNat))
    (hoffset : bus.writeOffset = s.bus.writeOffset + BoundedFifo.cost dp messageSize.toNat) :
    Represents dp
      ⟨bus, s.outputs ++ [⟨s.bus.writeOffset + (dp.emitBinary messageSize.toNat).length,
        messageSize.toNat⟩]⟩
      { q with messages := q.messages ++ [List.replicate messageSize.toNat null] } := by
  have hframes : ((format dp).frames
      (q.messages ++ [List.replicate messageSize.toNat null])).length =
      ((format dp).frames q.messages).length + BoundedFifo.cost dp messageSize.toNat := by
    simp [Framing.Format.frames_append, format_cost messageSize.toNat_lt]
  have hbuffer' : bus.buffer = (format dp).frames
      (q.messages ++ [List.replicate messageSize.toNat null]) ++
      List.replicate (q.remaining dp - BoundedFifo.cost dp messageSize.toNat) null := by
    rw [hbuffer, h.buffer_eq, h.writeOffset_eq, ← h.remaining]
    exact memcpy_head messageSize.toNat_lt hcost
  have hle := h.frames_le
  have hrest := h.remaining
  constructor
  · intro m hm
    simp only [List.mem_append, List.mem_singleton] at hm
    obtain hm | rfl := hm
    · exact h.fits m hm
    · simpa using messageSize.toNat_lt
  · rw [hoffset, hframes, h.writeOffset_eq]
  · rw [hbuffer', List.length_append, List.length_replicate, hframes]
    simp only
    omega
  · rw [hbuffer', hframes, hrest, Nat.sub_sub]
  · intro i
    have hlength := h.length_outputs
    obtain hi | rfl | hi := Nat.lt_trichotomy i q.messages.length
    · rw [List.getElem?_append_left (by omega), h.outputs_eq, List.getElem?_append_left hi,
        Framing.Format.position_append hi]
    · rw [← hlength, List.getElem?_concat_length, hlength, List.getElem?_concat_length,
        Option.map_some, Framing.Format.position_length, List.length_replicate,
        h.writeOffset_eq]
      rfl
    · rw [List.getElem?_eq_none (by simp; omega), List.getElem?_eq_none (by simp; omega)]
      rfl

theorem step_allocate (h : Represents dp s q) (hsize : messageSize.toNat < 2 ^ 63) :
    (s.step dp (.allocate messageSize)).1 = (q.step dp (.allocate messageSize)).1 ∧
      Represents dp (s.step dp (.allocate messageSize)).2
        (q.step dp (.allocate messageSize)).2 := by
  have hremaining := h.remaining_eq
  by_cases hspace : q.remaining dp < BoundedFifo.cost dp messageSize.toNat
  · have hfail := allocate_of_lt hsize (hremaining ▸ hspace)
    simp only [System.step, hfail, BoundedFifo.step, if_pos hspace]
    exact ⟨trivial, h⟩
  · have hcost : BoundedFifo.cost dp messageSize.toNat ≤ q.remaining dp := Nat.le_of_not_lt hspace
    obtain ⟨bus', hok, hbuffer, hoffset⟩ := allocate_of_le hsize (hremaining ▸ hcost)
    simp only [System.step, hok, BoundedFifo.step, if_neg hspace, true_and]
    exact h.push hcost hbuffer hoffset

/-- A message that is changed in place has its length and its place in the bus. -/
theorem Represents.store (h : Represents dp s q) {i o : Nat} {m : Bytes}
    (hm : q.messages[i]? = some m) (ho : o < m.length) (value : UInt8) :
    Represents dp { s with bus := s.bus.store ((format dp).position q.messages i + o) value }
      { q with messages := q.messages.modify i fun m => m.set o value } := by
  have hlengths : (q.messages.modify i fun m => m.set o value).map List.length =
      q.messages.map List.length := Framing.Format.map_length_modify o value
  have hframes := (format dp).frames_set hm ho value
  have hlength := congrArg List.length hframes
  rw [List.length_set] at hlength
  have hin : (format dp).position q.messages i + o < ((format dp).frames q.messages).length := by
    have := (format dp).position_add_le hm
    omega
  constructor
  · intro m' hm'
    have hfits : ∀ n ∈ q.messages.map List.length, n < 2 ^ 64 := by simpa using h.fits
    apply hfits
    rw [← hlengths]
    exact List.mem_map_of_mem hm'
  · rw [← hlength]
    exact h.writeOffset_eq
  · simpa [BufferbusHandle.store] using h.length_eq
  · simp only [BufferbusHandle.store]
    rw [h.buffer_eq, List.set_append_left _ _ hin, hframes, hlength]
  · intro j
    have hget := congrArg (fun ns => ns[j]?.map (OutputBuffer.mk
      ((format dp).position q.messages j))) hlengths
    simp only [List.getElem?_map, Option.map_map] at hget
    rw [Framing.Format.position_congr hlengths]
    exact (h.outputs_eq j).trans hget.symm

theorem step_write (h : Represents dp s q) (i o : Nat) (value : UInt8) :
    (s.step dp (.write i o value)).1 = (q.step dp (.write i o value)).1 ∧
      Represents dp (s.step dp (.write i o value)).2 (q.step dp (.write i o value)).2 := by
  have hout := h.outputs_eq i
  cases hm : q.messages[i]? with
  | none =>
    have hsame : q.messages.modify i (fun m => m.set o value) = q.messages :=
      List.modify_eq_self (List.getElem?_eq_none_iff.mp hm)
    rw [hm, Option.map_none] at hout
    simp only [System.step, hout, BoundedFifo.step, hsame]
    exact ⟨trivial, h⟩
  | some m =>
    rw [hm, Option.map_some] at hout
    simp only [System.step, hout, BoundedFifo.step, true_and]
    split
    case isTrue ho => exact h.store hm ho value
    case isFalse ho =>
      -- a store behind the end of a message is refused
      have hsame : q.messages.modify i (fun m => m.set o value) = q.messages := by
        apply List.ext_getElem?
        intro j
        rw [List.getElem?_modify]
        grind [List.set_eq_of_length_le]
      rw [hsame]
      exact h

theorem consumeLoop_of_unframe {fuel : Nat} {contentStream : Bytes}
    (h : (format dp).unframe fuel contentStream = some messages) :
    BufferbusHandle.consumeLoop dp fuel contentStream = (messages.map ([·]), .ok ()) := by
  induction fuel generalizing contentStream messages with
  | zero =>
    cases contentStream with
    | nil => cases h; rfl
    | cons => cases h
  | succ fuel ih =>
    cases contentStream with
    | nil => cases h; rfl
    | cons byte bytes =>
      rw [Framing.Format.unframe] at h
      obtain ⟨⟨n, content⟩, hread, h⟩ := Option.bind_eq_some_iff.mp h
      simp only [format] at hread
      cases hparse : dp.parseItemHead (byte :: bytes) with
      | none => simp [hparse] at hread
      | some head =>
        obtain ⟨msgInfo, rest⟩ := head
        simp only [hparse] at hread
        split at hread
        case isFalse => cases hread
        case isTrue hbinary =>
          cases hread
          by_cases hlength : content.length < msgInfo.value
          case pos => simp [hlength] at h
          case neg =>
            simp only [if_neg hlength] at h
            obtain ⟨tail, htail, h⟩ := Option.bind_eq_some_iff.mp h
            cases h
            have hgood : ¬(msgInfo.type ≠ .binary ∨ msgInfo.indefinite = true ∨
                content.length < msgInfo.value) := by tauto
            rw [BufferbusHandle.consumeLoop, hparse]
            simp only [if_neg hgood, ih htail, List.map_cons]

/-- Consuming passes on the messages that the bus holds, and leaves it empty. -/
theorem step_consume (h : Represents dp s q) :
    (s.step dp .consume).1 = (q.step dp .consume).1 ∧
      Represents dp (s.step dp .consume).2 (q.step dp .consume).2 := by
  have hstream : s.bus.buffer.take s.bus.writeOffset = (format dp).frames q.messages := by
    rw [h.buffer_eq, h.writeOffset_eq, List.take_left]
  have hloop := consumeLoop_of_unframe
    ((format dp).unframe_frames h.fits (Nat.le_refl _))
  simp only [System.step, BufferbusHandle.consumeMessages, hstream, hloop, BoundedFifo.step,
    true_and]
  constructor
  · simp
  · rfl
  · simpa [BufferbusHandle.clearContent] using h.length_eq
  · simp [BufferbusHandle.clearContent, h.length_eq]
  · simp

theorem step_refines (op : Op) (s : System) (q : BoundedFifo)
    (hop : ∀ messageSize, op = .allocate messageSize → messageSize.toNat < 2 ^ 63)
    (h : Represents dp s q) :
    (s.step dp op).1 = (q.step dp op).1 ∧ Represents dp (s.step dp op).2 (q.step dp op).2 := by
  cases op with
  | allocate messageSize => exact step_allocate h (hop _ rfl)
  | write i o value => exact step_write h i o value
  | consume => exact step_consume h

theorem represents_bufferbus {truncate : UInt64 → Except Errc UInt64} {bufferSize : UInt64}
    (h : bufferbus truncate bufferSize = .ok bus) :
    Represents dp ⟨bus, []⟩ ⟨bufferSize.toNat, []⟩ := by
  rw [bufferbus] at h
  cases htruncate : truncate bufferSize with
  | error e => simp [htruncate, bind, Except.bind] at h
  | ok truncatedSize =>
    simp only [htruncate, bind, Except.bind] at h
    split at h
    case isTrue => cases h
    case isFalse =>
      cases h
      constructor <;> simp

end

/-- The buffer bus answers every run as the bounded queue does. Behind every run an allocation
fails exactly if the message does not fit with its head, and then the bus stays as it is. -/
theorem bufferbus_refines_bounded_fifo (dp : BinaryHeads) {truncate : UInt64 → Except Errc UInt64}
    {bufferSize : UInt64} {bus : BufferbusHandle} (hbus : bufferbus truncate bufferSize = .ok bus)
    (ops : List Op)
    (hsizes : ∀ messageSize, .allocate messageSize ∈ ops → messageSize.toNat < 2 ^ 63) :
    let s := Runs.replies (System.step dp) ops ⟨bus, []⟩
    let q := Runs.replies (BoundedFifo.step dp) ops ⟨bufferSize.toNat, []⟩
    s.1 = q.1 ∧ ∀ messageSize : UInt64, messageSize.toNat < 2 ^ 63 →
      let allocation := s.2.bus.allocateRecordBufferInplace dp messageSize
      (allocation.1.isOk = false ↔
        q.2.remaining dp < BoundedFifo.cost dp messageSize.toNat) ∧
      (allocation.1.isOk = false → allocation = (.error .notEnoughSpace, s.2.bus)) := by
  intro s q
  have hops : ∀ op ∈ ops, ∀ messageSize, op = .allocate messageSize → messageSize.toNat < 2 ^ 63 :=
    fun op hop messageSize heq => hsizes messageSize (heq ▸ hop)
  have hrun : s.1 = q.1 ∧ Represents dp s.2 q.2 :=
    Runs.replies_refine step_refines hops (represents_bufferbus hbus)
  refine ⟨hrun.1, fun messageSize hsize => ?_⟩
  have hremaining := hrun.2.remaining_eq
  intro allocation
  obtain hspace | hspace :=
    Nat.lt_or_ge (q.2.remaining dp) (BoundedFifo.cost dp messageSize.toNat)
  · have hfail : allocation = (.error .notEnoughSpace, s.2.bus) :=
      allocate_of_lt hsize (hremaining ▸ hspace)
    simp [hfail, hspace, Except.isOk, Except.toBool]
  · obtain ⟨bus', hok, -⟩ := allocate_of_le hsize (hremaining ▸ hspace)
    have hsuccess : allocation.1.isOk = true := by
      simp only [allocation, hok]
      rfl
    simp [hsuccess, Nat.not_lt.mpr hspace]

/-- Three messages, of which the last is refused, and one that comes when they are consumed. -/
def severalOps : List Op :=
  [.allocate 2, .write 0 1 0x42, .allocate 5, .write 1 0 0x07, .allocate 6, .consume, .allocate 6,
    .write 0 5 0x18, .consume]

theorem bufferbus_refines_bounded_fifo_of_run :
    ∃ bus, bufferbus .ok 15 = .ok bus ∧
      let s := Runs.replies (System.step .plain) severalOps ⟨bus, []⟩
      let q := Runs.replies (BoundedFifo.step .plain) severalOps ⟨(15 : UInt64).toNat, []⟩
      s.1 = q.1 ∧ ∀ messageSize : UInt64, messageSize.toNat < 2 ^ 63 →
        let allocation := s.2.bus.allocateRecordBufferInplace .plain messageSize
        (allocation.1.isOk = false ↔
          q.2.remaining .plain < BoundedFifo.cost .plain messageSize.toNat) ∧
        (allocation.1.isOk = false → allocation = (.error .notEnoughSpace, s.2.bus)) := by
  refine ⟨_, rfl, bufferbus_refines_bounded_fifo .plain (show bufferbus .ok 15 = .ok _ from rfl)
    severalOps fun messageSize h => ?_⟩
  have hsmall : messageSize = 2 ∨ messageSize = 5 ∨ messageSize = 6 := by
    simpa [severalOps] using h
  rcases hsmall with rfl | rfl | rfl
  all_goals decide

/-- Two messages up to the last byte: a third one is refused, and only the second was written. -/
example : (bufferbus .ok 5).toOption.map (fun bus => (Runs.replies (System.step .plain)
    [.allocate 1, .allocate 2, .write 1 1 0x42, .allocate 1, .consume] ⟨bus, []⟩).1) =
    some [.allocated (.ok ()), .allocated (.ok ()), .written, .allocated (.error .notEnoughSpace),
      .consumed [[[0xf6]], [[0xf6, 0x42]]] (.ok ())] := rfl

end Deeplog.Bus

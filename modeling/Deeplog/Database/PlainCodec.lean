import Deeplog.Codec.Loggable
import Deeplog.Database.Contents

/-!
# A codec of contents

The codec of `contents_t` over plain CBOR: an object of three numbered properties behind its
version, with tuples for the metas.
-/

namespace Deeplog.Database.Plain

open Codec (Parse Reads emitUInt expect readUInt32 reads_unsigned reads_expect reads_uint32)
open Codec.Primitives (fromHead argument unsigned readString decodeItems)

/-! ## Parts -/

def emitText (bs : Bytes) : Bytes := Cbor.encodeHead 3 bs.length ++ bs
def emitBinary (bs : Bytes) : Bytes := Cbor.encodeHead 2 bs.length ++ bs

/-- An array of as many items as its head says. -/
def emitList {α : Type} (emit : α → Bytes) (items : List α) : Bytes :=
  Cbor.encodeHead 4 items.length ++ items.flatMap emit

def readUInt64 : Parse UInt64 := do
  let n ← unsigned (2 ^ 64 - 1)
  pure (.ofNat n)

def readList {α : Type} (item : Parse α) : Parse (List α) := do
  let n ← fromHead (argument .array)
  decodeItems item n

theorem reads_uint64 (n : UInt64) : Reads readUInt64 (emitUInt n.toNat) n := by
  intro rest
  have hle : n.toNat ≤ 2 ^ 64 - 1 := Nat.le_pred_of_lt n.toNat_lt
  rw [readUInt64, Parse.bind_of_eq (reads_unsigned hle (by simp) rest)]
  simp

theorem reads_text {bs : Bytes} (h : bs.length < 2 ^ 64) :
    Reads (readString .text) (emitText bs) bs :=
  fun rest => Codec.Primitives.readString_encode .text h rest

theorem reads_binary {bs : Bytes} (h : bs.length < 2 ^ 64) :
    Reads (readString .binary) (emitBinary bs) bs :=
  fun rest => Codec.Primitives.readString_encode .binary h rest

/-- An array is read back, if its items are and each takes at least one byte. -/
theorem reads_list {α : Type} {item : Parse α} {emit : α → Bytes} {items : List α}
    (hemit : ∀ a, 1 ≤ (emit a).length)
    (hitem : ∀ a, (emit a).length < 2 ^ 64 → Reads item (emit a) a)
    (hlen : (emitList emit items).length < 2 ^ 64) :
    Reads (readList item) (emitList emit items) items := by
  rw [emitList, List.length_append] at hlen
  have hcount : items.length ≤ (items.flatMap emit).length := by
    clear hlen
    induction items with
    | nil => rfl
    | cons a items ih =>
      have := hemit a
      simp only [List.flatMap_cons, List.length_append, List.length_cons]
      omega
  refine Reads.bind (fun rest => Codec.Primitives.argument_encodeHead .array (by omega) rest) ?_
  intro rest
  have hitems : ∀ a ∈ items, ∀ rest, ∃ b, item (emit a ++ rest) = some (b, rest) ∧ a = b := by
    intro a ha rest
    refine ⟨a, hitem a ?_ rest, rfl⟩
    obtain ⟨before, after, rfl⟩ := List.append_of_mem ha
    simp only [List.flatMap_append, List.flatMap_cons, List.length_append] at hlen
    omega
  obtain ⟨read, hread, hsame⟩ := Codec.Primitives.decodeItems_encode hitems rest
  rw [List.forall₂_eq_eq_eq] at hsame
  rw [hread, hsame]

/-! ## Metas -/

/-- A tuple of the sink, the rotation, the size and the path. -/
def encodeContainer (rcm : RecordContainerMeta) : Bytes :=
  Cbor.encodeHead 4 4 ++ (emitUInt rcm.sinkId.toNat ++ (emitUInt rcm.rotation.toNat ++
    (emitUInt rcm.byteSize.toNat ++ (emitText rcm.path ++ []))))

def decodeContainer : Parse RecordContainerMeta := do
  expect (fromHead (argument .array)) 4
  let sinkId ← readUInt32
  let rotation ← readUInt32
  let byteSize ← readUInt32
  let path ← readString .text
  pure ⟨path, byteSize, sinkId, rotation⟩

/-- A tuple of all that is known about a bus. -/
def encodeBus (mbm : MessageBusMeta) : Bytes :=
  Cbor.encodeHead 4 5 ++ (emitBinary mbm.magic ++ (emitText mbm.id ++
    (emitUInt mbm.rotation.toNat ++ (emitUInt mbm.processId.toNat ++ (emitText mbm.path ++ [])))))

def decodeBus : Parse MessageBusMeta := do
  expect (fromHead (argument .array)) 5
  let magic ← readString .binary
  let id ← readString .text
  let rotation ← readUInt32
  let processId ← readUInt32
  let path ← readString .text
  pure ⟨path, magic, id, rotation, processId⟩

/-- The head of a tuple. -/
theorem reads_array {n : Nat} (h : n < 2 ^ 64) :
    Reads (expect (fromHead (argument .array)) n) (Cbor.encodeHead 4 n) () :=
  reads_expect fun rest => Codec.Primitives.argument_encodeHead .array h rest

theorem reads_container {rcm : RecordContainerMeta} (h : (encodeContainer rcm).length < 2 ^ 64) :
    Reads decodeContainer (encodeContainer rcm) rcm := by
  simp only [encodeContainer, emitText, List.length_append] at h
  exact (reads_array (by simp)).bind <| (reads_uint32 _).bind <| (reads_uint32 _).bind <|
    (reads_uint32 _).bind <| (reads_text (by omega)).bind <| .pure rcm

theorem reads_bus {mbm : MessageBusMeta} (h : (encodeBus mbm).length < 2 ^ 64) :
    Reads decodeBus (encodeBus mbm) mbm := by
  simp only [encodeBus, emitText, emitBinary, List.length_append] at h
  exact (reads_array (by simp)).bind <| (reads_binary (by omega)).bind <|
    (reads_text (by omega)).bind <| (reads_uint32 _).bind <| (reads_uint32 _).bind <|
    (reads_text (by omega)).bind <| .pure mbm

/-! ## Contents -/

/-- An object of version 0 whose properties are the revision, the containers and the buses. -/
def encode (c : Contents) : Bytes :=
  Cbor.encodeHead 5 4 ++ (emitUInt 0 ++ (emitUInt 0 ++ (emitUInt 1 ++ (emitUInt c.revision.toNat ++
    (emitUInt 2 ++ (emitList encodeContainer c.recordContainers ++
      (emitUInt 3 ++ (emitList encodeBus c.messageBuses ++ []))))))))

/-- The properties are expected in the order in which they are encoded. -/
def decodeContents : Parse Contents := do
  expect (fromHead (argument .map)) 4
  expect (unsigned 3) 0
  expect (unsigned 3) 0
  expect (unsigned 3) 1
  let revision ← readUInt64
  expect (unsigned 3) 2
  let recordContainers ← readList decodeContainer
  expect (unsigned 3) 3
  let messageBuses ← readList decodeBus
  pure ⟨revision, recordContainers, messageBuses⟩

/-- Contents are read back, whatever follows them. -/
theorem reads_contents {c : Contents} (h : (encode c).length < 2 ^ 64) :
    Reads decodeContents (encode c) c := by
  have hkey : ∀ n ≤ 3, Reads (expect (unsigned 3) n) (emitUInt n) () :=
    fun n hn => reads_expect (reads_unsigned hn (by simp))
  have hhead : Reads (expect (fromHead (argument .map)) 4) (Cbor.encodeHead 5 4) () :=
    reads_expect fun rest => Codec.Primitives.argument_encodeHead .map (by simp) rest
  simp only [encode, List.length_append] at h
  have hcontainers : Reads (readList decodeContainer)
      (emitList encodeContainer c.recordContainers) c.recordContainers :=
    reads_list (fun _ => Nat.succ_le_of_lt (by simp [encodeContainer, Cbor.encodeHead]))
      (fun _ => reads_container) (by omega)
  have hbuses : Reads (readList decodeBus) (emitList encodeBus c.messageBuses) c.messageBuses :=
    reads_list (fun _ => Nat.succ_le_of_lt (by simp [encodeBus, Cbor.encodeHead]))
      (fun _ => reads_bus) (by omega)
  exact hhead.bind <| (hkey 0 (by simp)).bind <| (hkey 0 (by simp)).bind <|
    (hkey 1 (by simp)).bind <| (reads_uint64 _).bind <| (hkey 2 (by simp)).bind <|
    hcontainers.bind <| (hkey 3 (by simp)).bind <| hbuses.bind <| .pure c

/-- A file of zeros holds no contents, for these begin with the head of a map. -/
def codec : ContentsCodec where
  encode := encode
  decode bs := (decodeContents bs).map (·.1)
  decode_encode c rest h := by
    have hlen : (encode c).length < 2 ^ 64 := Nat.lt_of_le_of_lt h (by decide)
    rw [reads_contents hlen rest]
    rfl
  decode_zero rest := rfl

end Deeplog.Database.Plain

import Mathlib.Data.List.Perm.Basic
import Mathlib.Data.List.Sort
import Deeplog.Database.Interleaving

/-!
# The contents of the file database

The record containers and message buses that a root file lists, and how a handle combines what it
has cached with what it decodes from the two streams of the file.
-/

namespace Deeplog.Database

/-- `file_sink_id` -/
abbrev FileSinkId := UInt32

def FileSinkId.recovered : FileSinkId := 13

structure RecordContainerMeta where
  path : Bytes
  byteSize : UInt32
  sinkId : FileSinkId
  rotation : UInt32
  deriving DecidableEq

structure MessageBusMeta where
  path : Bytes
  magic : Bytes
  id : Bytes
  rotation : UInt32
  processId : UInt32
  deriving DecidableEq

/-- `contents_t` -/
structure Contents where
  revision : UInt64 := 0
  recordContainers : List RecordContainerMeta := []
  messageBuses : List MessageBusMeta := []
  deriving DecidableEq

namespace Contents

/-- The stream that the contents belong to. -/
def odd (c : Contents) : Bool := c.revision &&& 1 == 1

/-- The buses that have not been marked as erased. -/
def liveBuses (c : Contents) : List MessageBusMeta := c.messageBuses.filter (·.rotation ≠ 0)

/-- Contents with the same entries. -/
def SameEntries (c d : Contents) : Prop :=
  c.recordContainers.Perm d.recordContainers ∧ c.liveBuses.Perm d.liveBuses

/-- The same contents, up to the order of the entries. -/
def Same (c d : Contents) : Prop := c.revision = d.revision ∧ c.SameEntries d

/-- The version by which handles decide whether they are up to date. -/
def version (c : Contents) : Nat := c.revision.toNat

end Contents

/-! ## Reading -/

/-- The codec of `contents_t`. The blocks of a stream that has not been written start with zero,
which is a number and no map. -/
structure ContentsCodec where
  encode : Contents → Bytes
  decode : Bytes → Option Contents
  decode_encode : ∀ c rest, (encode c).length ≤ maxStreamSize → decode (encode c ++ rest) = some c
  decode_zero : ∀ rest, decode (0 :: rest) = none

/-- Contents and the stream that they come from. -/
structure Fetched where
  contents : Contents
  odd : Bool

/-- The decoded contents of a stream replace older ones. -/
def Fetched.adopt (cached : Fetched) (odd : Bool) : Option Contents → Fetched
  | some decoded => if cached.contents.revision < decoded.revision then ⟨decoded, odd⟩ else cached
  | none => cached

/-- A revision that does not belong to the stream is increased. -/
def Fetched.settle (fetched : Fetched) : Contents :=
  if fetched.contents.odd ≠ fetched.odd then
    { fetched.contents with revision := fetched.contents.revision + 1 }
  else fetched.contents

/-- The containers are sorted, and the buses without those that have been erased. -/
def Contents.arrange (c : Contents) : Contents where
  revision := c.revision
  recordContainers := c.recordContainers.insertionSort fun a b => a.rotation ≤ b.rotation
  messageBuses := c.liveBuses.insertionSort fun a b => a.rotation ≤ b.rotation

/-- The part of `fetch_content_impl` behind the decoding of the two streams. -/
def fetchDecoded (even odd : Option Contents) (cached : Contents) : Option Contents :=
  if even.isNone ∧ odd.isNone then none
  else some ((((Fetched.mk cached cached.odd).adopt false even).adopt true odd).settle.arrange)

namespace Contents

variable {c d e : Contents}

theorem SameEntries.rfl : c.SameEntries c := ⟨.refl _, .refl _⟩
theorem SameEntries.symm (h : c.SameEntries d) : d.SameEntries c := ⟨h.1.symm, h.2.symm⟩
theorem SameEntries.trans (h : c.SameEntries d) (h' : d.SameEntries e) : c.SameEntries e :=
  ⟨h.1.trans h'.1, h.2.trans h'.2⟩

theorem Same.rfl : c.Same c := ⟨Eq.refl _, .rfl⟩
theorem Same.symm (h : c.Same d) : d.Same c := ⟨h.1.symm, h.2.symm⟩
theorem Same.trans (h : c.Same d) (h' : d.Same e) : c.Same e := ⟨h.1.trans h'.1, h.2.trans h'.2⟩

theorem liveBuses_eq (h : ∀ mbm ∈ c.messageBuses, mbm.rotation ≠ 0) :
    c.liveBuses = c.messageBuses :=
  List.filter_eq_self.mpr fun mbm hmbm => decide_eq_true (h mbm hmbm)

theorem rotation_ne_zero {mbm : MessageBusMeta} (h : mbm ∈ c.liveBuses) : mbm.rotation ≠ 0 :=
  of_decide_eq_true (List.mem_filter.mp h).2

theorem messageBuses_arrange (c : Contents) : c.arrange.messageBuses.Perm c.liveBuses :=
  List.perm_insertionSort _ _

/-- Contents that have been fetched have no erased buses. -/
theorem liveBuses_arrange (c : Contents) : c.arrange.liveBuses = c.arrange.messageBuses :=
  liveBuses_eq fun _ hmbm => rotation_ne_zero ((messageBuses_arrange c).mem_iff.mp hmbm)

theorem arrange_same (c : Contents) : c.arrange.Same c :=
  ⟨Eq.refl _, List.perm_insertionSort _ _, liveBuses_arrange c ▸ messageBuses_arrange c⟩

theorem arrange_same_iff : c.arrange.Same d ↔ c.Same d :=
  ⟨(arrange_same c).symm.trans, (arrange_same c).trans⟩

theorem version_eq_iff : c.version = d.version ↔ c.revision = d.revision := UInt64.toNat_inj

theorem odd_eq_decide (c : Contents) : c.odd = decide (c.version % 2 = 1) := by
  have hbit : (c.revision &&& 1).toNat = c.version % 2 := by
    rw [UInt64.toNat_and]
    exact Nat.and_one_is_mod _
  rw [odd, Bool.beq_eq_decide_eq, decide_eq_decide, ← UInt64.toNat_inj, hbit]
  rfl

/-- The next revision belongs to the other stream. -/
theorem odd_of_next (h : d.version = c.version + 1) : d.odd = !c.odd := by
  rw [odd_eq_decide, odd_eq_decide, h]
  grind

theorem odd_of_version_eq (h : d.version = c.version) : d.odd = c.odd := by
  rw [odd_eq_decide, odd_eq_decide, h]

theorem odd_of_revision (h : d.revision = c.revision + 1) : d.odd = !c.odd := by
  have hversion : d.version = (c.version + 1) % 2 ^ 64 := by
    rw [version, h, UInt64.toNat_add]
    rfl
  rw [odd_eq_decide, odd_eq_decide, hversion]
  grind

theorem revision_lt_iff : c.revision < d.revision ↔ c.version < d.version :=
  UInt64.lt_iff_toNat_lt

theorem version_next (h : c.version + 1 < 2 ^ 64) (hd : d.revision = c.revision + 1) :
    d.version = c.version + 1 := by
  rw [version, hd, UInt64.toNat_add]
  exact Nat.mod_eq_of_lt h

end Contents

end Deeplog.Database

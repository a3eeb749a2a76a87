import Deeplog.Lib.Versioned
import Deeplog.Database.Contents

/-!
# The root file

How contents are stored in the two streams of the root file and fetched again. The file
`Represents` the contents that have been stored last, and those that were current before the
revision was increased: what a store of the next revision overwrites. A store of the same revision
overwrites the current contents in place.
-/

namespace Deeplog.Database

/-- `file_database_handle::magic` -/
def magic : Bytes :=
  [0x82, 0x4e, 0x0d, 0x0a, 0xab, 0x7e, 0x7b, 0x64, 0x72,
    0x6f, 0x74, 0x7d, 0x7e, 0xbb, 0x0a, 0x1a, 0xa0]

def validateMagic (f : File) : Bool :=
  match f.read 0 (2 * 4096) with
  | some header => header.take magic.length == magic && (header.drop magic.length).all (· == 0)
  | none => false

namespace ContentsCodec

variable (codec : ContentsCodec)

/-- The contents in a stream, if the stream can be opened and they can be decoded. -/
def decodeStream (f : File) (odd : Bool) : Option (Option Contents) :=
  (interleavingInputStream f odd).map codec.decode

def fetchContentImpl (f : File) (cached : Contents) : Option Contents := do
  let even ← codec.decodeStream f false
  let odd ← codec.decodeStream f true
  fetchDecoded even odd cached

/-- The blocks that are written for some contents. -/
def chunksOf (c : Contents) : List Bytes := chunks 0 (codec.encode c)

/-- The contents fit into a stream. Otherwise they cannot be encoded. -/
def Fits (c : Contents) : Prop := (codec.encode c).length ≤ maxStreamSize

instance (c : Contents) : Decidable (codec.Fits c) := inferInstanceAs (Decidable (_ ≤ _))

def retireToStorage (f : File) (c : Contents) : Option File :=
  if codec.Fits c then some (writeChunks f c.odd 0 (codec.chunksOf c)) else none

def initializeStorage : Option File :=
  codec.retireToStorage ((File.zeros (4 * 4096)).write 0 magic) {}

/-- A handle for a file, which is initialized if it is empty. -/
def fileDatabase (f : File) : Option (File × Contents) :=
  if f.size ≠ 0 then
    if validateMagic f then (codec.fetchContentImpl f {}).map fun contents => (f, contents)
    else none
  else codec.initializeStorage.map fun f => (f, {})

/-- The contents are stored in their stream. -/
structure Stored (f : File) (c : Contents) : Prop where
  fits : codec.Fits c
  holds : Holds f c.odd 0 (codec.chunksOf c)

/-- Nothing has been stored in the stream. -/
def Blank (f : File) (odd : Bool) : Prop := ∃ rest, readChunk f 0 odd = some (0 :: rest)

/-- What the other stream holds: the contents of the revision before, if there was one. -/
def Behind (f : File) (current : Contents) : Option Contents → Prop
  | some previous => codec.Stored f previous ∧ previous.odd = !current.odd ∧
      previous.version < current.version
  | none => Blank f (!current.odd) ∧ current.version = 0

/-- A root file with its current contents. -/
structure Represents (f : File) (current : Contents) (previous : Option Contents) : Prop where
  size : 2 * pageSize < f.size
  header : validateMagic f
  stored : codec.Stored f current
  behind : codec.Behind f current previous

end ContentsCodec

/-! ## Fetching -/

section Decoded

variable {current cached c d : Contents} {previous : Option Contents}

theorem Fetched.adopt_none (cached : Fetched) (odd : Bool) : cached.adopt odd none = cached := rfl

theorem Fetched.adopt_some (cached : Fetched) (odd : Bool) (decoded : Contents) :
    cached.adopt odd (some decoded) =
      if cached.contents.version < decoded.version then ⟨decoded, odd⟩ else cached := by
  simp only [Fetched.adopt, Contents.revision_lt_iff]

theorem Fetched.settle_of_odd {fetched : Fetched} (h : fetched.contents.odd = fetched.odd) :
    fetched.settle = fetched.contents := by
  rw [Fetched.settle, if_neg (by simpa using h)]

/-- Whichever of the streams has them, the current contents are fetched unless the cached ones
have the same revision. -/
theorem fetchDecoded_eq {even odd : Option Contents}
    (hcurrent : (if current.odd then odd else even) = some current)
    (hprevious : (if current.odd then even else odd) = previous)
    (hbehind : ∀ p ∈ previous, p.version < current.version)
    (hle : cached.version ≤ current.version) :
    fetchDecoded even odd cached =
      some (Versioned.refresh Contents.version current cached).arrange := by
  cases hodd : current.odd with
  | false =>
    simp only [hodd, Bool.false_eq_true, if_false] at hcurrent hprevious
    subst hcurrent hprevious
    have hkeep : ∀ kept : Fetched, kept.contents.version = current.version →
        kept.adopt true odd = kept := by
      intro kept hkept
      cases odd with
      | none => exact kept.adopt_none true
      | some p =>
        have := hbehind p rfl
        rw [Fetched.adopt_some, if_neg (by omega)]
    rw [fetchDecoded, if_neg (by simp), Fetched.adopt_some, Versioned.refresh]
    split
    case isTrue hlt => rw [hkeep _ rfl, Fetched.settle_of_odd hodd]
    case isFalse hge => rw [hkeep _ (by grind), Fetched.settle_of_odd rfl]
  | true =>
    simp only [hodd, if_true] at hcurrent hprevious
    subst hcurrent hprevious
    rw [fetchDecoded, if_neg (by simp), Fetched.adopt_some, Versioned.refresh]
    cases even with
    | none => grind [Fetched.adopt_none, Fetched.settle_of_odd]
    | some p =>
      have := hbehind p rfl
      rw [Fetched.adopt_some]
      grind [Fetched.settle_of_odd]

end Decoded

namespace ContentsCodec

variable {codec : ContentsCodec} {f f' : File} {odd : Bool} {c current cached : Contents}
  {previous : Option Contents} {cs : List Bytes}

theorem Stored.decodeStream (h : codec.Stored f c) :
    codec.decodeStream f c.odd = some (some c) := by
  obtain ⟨rest, hstream⟩ := h.holds.inputStream h.fits
  rw [ContentsCodec.decodeStream, hstream, Option.map_some, codec.decode_encode c rest h.fits]

theorem Blank.decodeStream (h : Blank f odd) : codec.decodeStream f odd = some none := by
  obtain ⟨rest, hread⟩ := h
  have hstream : interleavingInputStream f odd =
      some (0 :: (rest ++ readChunks f odd f.size 1).take (maxStreamSize - 1)) := by
    rw [interleavingInputStream, hread]
    rfl
  rw [ContentsCodec.decodeStream, hstream, Option.map_some, codec.decode_zero]

theorem Behind.decodeStream (h : codec.Behind f current previous) :
    codec.decodeStream f (!current.odd) = some previous := by
  cases previous with
  | none => exact h.1.decodeStream
  | some p =>
    obtain ⟨hstored, hodd, -⟩ := h
    rw [← hodd]
    exact hstored.decodeStream

theorem Behind.version_lt (h : codec.Behind f current previous) :
    ∀ p ∈ previous, p.version < current.version := by
  rintro p rfl
  exact h.2.2

/-- Fetching refreshes the cached contents. -/
theorem Represents.fetch (h : codec.Represents f current previous)
    (hle : cached.version ≤ current.version) :
    codec.fetchContentImpl f cached =
      some (Versioned.refresh Contents.version current cached).arrange := by
  have hstored := h.stored.decodeStream
  have hbehind := h.behind.decodeStream
  cases hodd : current.odd with
  | false =>
    simp only [hodd, Bool.not_false] at hstored hbehind
    simp only [fetchContentImpl, hstored, hbehind, Option.bind_eq_bind, Option.bind_some]
    exact fetchDecoded_eq (by simp [hodd]) (by simp [hodd]) h.behind.version_lt hle
  | true =>
    simp only [hodd, Bool.not_true] at hstored hbehind
    simp only [fetchContentImpl, hstored, hbehind, Option.bind_eq_bind, Option.bind_some]
    exact fetchDecoded_eq (by simp [hodd]) (by simp [hodd]) h.behind.version_lt hle

/-- A handle that is opened starts without contents. -/
theorem Represents.fileDatabase (h : codec.Represents f current previous) :
    codec.fileDatabase f =
      some (f, (Versioned.refresh Contents.version current {}).arrange) := by
  have hsize : f.size ≠ 0 := Nat.ne_zero_of_lt h.size
  rw [ContentsCodec.fileDatabase, if_pos hsize, if_pos h.header, h.fetch (Nat.zero_le _)]
  rfl

/-! ## Storing -/

theorem full_chunksOf (codec : ContentsCodec) (c : Contents) : Full 0 (codec.chunksOf c) :=
  full_chunks 0 _

theorem Stored.writeChunks (h : codec.Stored f c) (hfull : Full 0 cs) (hne : c.odd ≠ odd) :
    codec.Stored (writeChunks f odd 0 cs) c :=
  ⟨h.fits, h.holds.writeChunks hfull hne⟩

theorem Behind.writeChunks (h : codec.Behind f current previous) (hfull : Full 0 cs)
    (hodd : odd = current.odd) : codec.Behind (writeChunks f odd 0 cs) current previous := by
  cases previous with
  | none =>
    obtain ⟨⟨rest, hread⟩, hzero⟩ := h
    exact ⟨⟨rest, readChunk_writeChunks hfull (.inr (by simp [hodd])) hread⟩, hzero⟩
  | some p =>
    obtain ⟨hstored, hp, hlt⟩ := h
    exact ⟨hstored.writeChunks hfull (by simp [hp, hodd]), hp, hlt⟩

theorem validateMagic_writeChunks (h : validateMagic f) :
    validateMagic (Database.writeChunks f odd 0 cs) := by
  rw [validateMagic] at h
  split at h
  case h_2 => cases h
  case h_1 header hread =>
    have hkept : (Database.writeChunks f odd 0 cs).read 0 (2 * 4096) = some header :=
      read_writeChunks (Nat.le_refl _) hread
    rw [validateMagic, hkept]
    exact h

theorem retireToStorage_eq_some (h : codec.retireToStorage f c = some f') :
    codec.Fits c ∧
      f' = Database.writeChunks f c.odd 0 (codec.chunksOf c) := by
  rw [retireToStorage] at h
  split at h
  case isTrue hlen => exact ⟨hlen, (Option.some.inj h).symm⟩
  case isFalse => cases h

theorem retireToStorage_stored (h : codec.retireToStorage f c = some f') : codec.Stored f' c := by
  obtain ⟨hlen, rfl⟩ := retireToStorage_eq_some h
  exact ⟨hlen, holds_writeChunks (full_chunksOf codec c)⟩

/-- Contents of the next revision leave the current ones behind. -/
theorem Represents.retire_next (h : codec.Represents f current previous)
    (hnext : c.version = current.version + 1) (hretire : codec.retireToStorage f c = some f') :
    codec.Represents f' c (some current) := by
  have hodd : current.odd = !c.odd := by simp [Contents.odd_of_next hnext]
  have hstored := retireToStorage_stored hretire
  obtain ⟨-, rfl⟩ := retireToStorage_eq_some hretire
  refine ⟨h.size.trans_le size_le_writeChunks, validateMagic_writeChunks h.header, hstored, ?_⟩
  exact ⟨h.stored.writeChunks (full_chunksOf codec c) (by simp [hodd]), hodd, by omega⟩

/-- Contents of the same revision replace the current ones. -/
theorem Represents.retire_same (h : codec.Represents f current previous)
    (hsame : c.version = current.version)
    (hretire : codec.retireToStorage f c = some f') : codec.Represents f' c previous := by
  have hodd := Contents.odd_of_version_eq hsame
  have hstored := retireToStorage_stored hretire
  obtain ⟨-, rfl⟩ := retireToStorage_eq_some hretire
  refine ⟨h.size.trans_le size_le_writeChunks, validateMagic_writeChunks h.header, hstored, ?_⟩
  have hbehind := h.behind.writeChunks (full_chunksOf codec c) hodd
  cases previous with
  | none => simpa only [Behind, hodd, hsame] using hbehind
  | some p => simpa only [Behind, hodd, hsame] using hbehind

theorem initializeStorage_represents (h : codec.initializeStorage = some f) :
    codec.Represents f {} none := by
  have hstored := retireToStorage_stored h
  obtain ⟨-, rfl⟩ := retireToStorage_eq_some h
  have hmagic : validateMagic ((File.zeros (4 * 4096)).write 0 magic) := by decide +kernel
  refine ⟨Nat.lt_of_lt_of_le (by decide) size_le_writeChunks, validateMagic_writeChunks hmagic,
    hstored, ⟨⟨List.replicate 4095 0, ?_⟩, rfl⟩⟩
  refine readChunk_writeChunks (full_chunksOf codec {}) (.inr (by decide)) ?_
  refine File.read_write_of_disjoint ?_ (.inr (by decide))
  exact File.read_zeros (by decide)

end ContentsCodec

end Deeplog.Database

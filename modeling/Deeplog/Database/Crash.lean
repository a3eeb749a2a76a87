import Deeplog.Database.Updates

/-!
# Stores that are cut off

A store writes block by block, and the process may end between two of them. A handle that is
opened then finds the stored contents in one stream, and in the other one a mixture of new blocks
and the blocks that were there before. Nothing but the decoder tells such a mixture from contents
that have been stored.
-/

namespace Deeplog.Database

/-- Decoded contents as a handle takes them from a stream. -/
def Contents.settled (t : Contents) (odd : Bool) : Contents := (Fetched.mk t odd).settle

/-- Contents of the stream `odd` that a fresh handle prefers to those of the other stream. -/
def Contents.Outranks (t : Contents) (odd : Bool) (other : Contents) : Prop :=
  if odd then other.version < t.version else other.version ≤ t.version

instance (t : Contents) (odd : Bool) (other : Contents) : Decidable (t.Outranks odd other) :=
  inferInstanceAs
    (Decidable (if odd = true then other.version < t.version else other.version ≤ t.version))

namespace ContentsCodec

variable (codec : ContentsCodec)

/-- The file behind the first blocks of a store. -/
def torn (f : File) (c : Contents) (k : Nat) : File :=
  writeChunks f c.odd 0 ((codec.chunksOf c).take k)

/-- What is decoded from new blocks that are followed by older ones. -/
def mixed (f : File) (c : Contents) (k : Nat) : Option Contents :=
  (codec.decodeStream (codec.torn f c k) c.odd).join

/-- A fresh handle fetches what had been stored before, or what was to be stored. -/
def Recovers (f : File) (b c : Contents) (k : Nat) : Prop :=
  ∃ r, codec.fileDatabase (codec.torn f c k) = some (codec.torn f c k, r) ∧ (r.Same b ∨ r.Same c)

/-- The mixture does no harm. With a new revision it is not decoded, or it is outranked by the
stored contents, or it is decoded as the new contents. With the same revision the stored contents
are lost, and the mixture has to be decoded as the old or as the new ones. -/
def Harmless (f : File) (b c : Contents) (k : Nat) : Prop :=
  if c.revision = b.revision then
    ∃ t, codec.mixed f c k = some t ∧
      (∀ other, codec.decodeStream f (!c.odd) = some (some other) → t.Outranks c.odd other) ∧
      ((t.settled c.odd).Same b ∨ (t.settled c.odd).Same c)
  else ∀ t, codec.mixed f c k = some t → t.Outranks c.odd b → (t.settled c.odd).Same c

end ContentsCodec

section

variable {c t other : Contents} {odd : Bool}

theorem Contents.version_pos_of_odd (h : c.odd = true) : 0 < c.version := by
  rw [odd_eq_decide, decide_eq_true_iff] at h
  omega

/-- What is settled belongs to the stream. -/
theorem Contents.odd_settled (t : Contents) (odd : Bool) : (t.settled odd).odd = odd := by
  rw [settled, Fetched.settle]
  split
  case isFalse h => exact not_not.mp h
  case isTrue h =>
    have hflip : Contents.odd { t with revision := t.revision + 1 } = !t.odd := odd_of_revision rfl
    rw [hflip]
    exact Bool.not_eq_eq_eq_not.mpr (Bool.eq_not_of_ne h)

theorem Contents.settled_of_odd (h : t.odd = odd) : t.settled odd = t :=
  Fetched.settle_of_odd h

/-- What a fresh handle takes from a stream with a mixture and a stream with contents. -/
def survivor (odd : Bool) (mixture : Option Contents) (other : Contents) : Contents :=
  match mixture with
  | some t => if t.Outranks odd other then t.settled odd
    else if other.version = 0 then {} else other
  | none => if other.version = 0 then {} else other

theorem fetchDecoded_survivor (mixture : Option Contents) (hother : other.odd = !odd) :
    fetchDecoded (if odd then some other else mixture) (if odd then mixture else some other) {} =
      some (survivor odd mixture other).arrange := by
  have hzero : Contents.version {} = 0 := rfl
  have hempty : Fetched.settle ⟨{}, false⟩ = {} := rfl
  have hsettle : Fetched.settle ⟨other, !odd⟩ = other := Fetched.settle_of_odd hother
  have hstart : Fetched.mk {} (Contents.odd {}) = ⟨{}, false⟩ := rfl
  cases odd with
  | true =>
    simp only [if_true, fetchDecoded, hstart, Fetched.adopt_some, survivor, Contents.Outranks,
      Contents.settled]
    cases mixture with
    | none => grind [Fetched.adopt_none]
    | some t => grind [Fetched.adopt_some]
  | false =>
    have hpositive := Contents.version_pos_of_odd hother
    simp only [Bool.false_eq_true, if_false, fetchDecoded, hstart, Fetched.adopt_some, survivor,
      Contents.Outranks, Contents.settled]
    cases mixture with
    | none => grind [Fetched.adopt_none]
    | some t => grind [Fetched.adopt_some]

end

namespace ContentsCodec

variable {codec : ContentsCodec} {f : File} {b c other : Contents} {previous : Option Contents}
  {k : Nat}

theorem full_take (codec : ContentsCodec) (c : Contents) (k : Nat) :
    Full 0 ((codec.chunksOf c).take k) :=
  (full_chunksOf codec c).take k

theorem decodeStream_torn (codec : ContentsCodec) (f : File) (c : Contents) (hk : 0 < k) :
    codec.decodeStream (codec.torn f c k) c.odd = some (codec.mixed f c k) := by
  obtain ⟨first, rest, hchunks⟩ := List.exists_cons_of_ne_nil (chunks_ne_nil 0 (codec.encode c))
  obtain ⟨n, rfl⟩ : ∃ n, k = n + 1 := ⟨k - 1, by omega⟩
  have hholds : Holds (codec.torn f c (n + 1)) c.odd 0 ((codec.chunksOf c).take (n + 1)) :=
    holds_writeChunks (full_take codec c _)
  rw [chunksOf, hchunks, List.take_succ_cons] at hholds
  rw [mixed, decodeStream, interleavingInputStream, hholds.1]
  rfl

/-- What a fresh handle finds in a file whose other stream is whole. -/
theorem Represents.fileDatabase_torn (h : codec.Represents f b previous) (hk : 0 < k)
    (hother : codec.decodeStream (codec.torn f c k) (!c.odd) = some (some other))
    (hodd : other.odd = !c.odd) :
    codec.fileDatabase (codec.torn f c k) =
      some (codec.torn f c k, (survivor c.odd (codec.mixed f c k) other).arrange) := by
  have hsize : (codec.torn f c k).size ≠ 0 :=
    Nat.ne_zero_of_lt (h.size.trans_le size_le_writeChunks)
  have hheader : validateMagic (codec.torn f c k) := validateMagic_writeChunks h.header
  have hmixed := decodeStream_torn codec f c hk
  have hfetch := fetchDecoded_survivor (codec.mixed f c k) hodd
  rw [ContentsCodec.fileDatabase, if_pos hsize, if_pos hheader, fetchContentImpl]
  cases hc : c.odd with
  | true =>
    simp only [hc, Bool.not_true, if_true] at hother hmixed hfetch
    simp [hother, hmixed, hfetch]
  | false =>
    simp only [hc, Bool.not_false, Bool.false_eq_true, if_false] at hother hmixed hfetch
    simp [hother, hmixed, hfetch]

theorem Represents.recovers_survivor (h : codec.Represents f b previous) (hk : 0 < k)
    (hother : codec.decodeStream (codec.torn f c k) (!c.odd) = some (some other))
    (hodd : other.odd = !c.odd) :
    codec.Recovers f b c k ↔ (survivor c.odd (codec.mixed f c k) other).Same b ∨
      (survivor c.odd (codec.mixed f c k) other).Same c := by
  simp [Recovers, h.fileDatabase_torn hk hother hodd, Contents.arrange_same_iff]

/-- A store of the next revision is recovered unless a mixture takes its place. -/
theorem Represents.recovers_next (h : codec.Represents f b previous)
    (hzero : b.version = 0 → b = {}) (hnext : c.version = b.version + 1) (hk : 0 < k) :
    codec.Recovers f b c k ↔
      ∀ t, codec.mixed f c k = some t → t.Outranks c.odd b → (t.settled c.odd).Same c := by
  have hodd : b.odd = !c.odd := by simp [Contents.odd_of_next hnext]
  have hother : codec.decodeStream (codec.torn f c k) b.odd = some (some b) :=
    (h.stored.writeChunks (full_take codec c k) (by simp [hodd])).decodeStream
  rw [hodd] at hother
  have hb : (if b.version = 0 then {} else b) = b := by
    split
    case isTrue hversion => exact (hzero hversion).symm
    case isFalse => rfl
  have hnever : ∀ t : Contents, ¬(t.settled c.odd).Same b := by
    intro t hsame
    have hparity := Contents.odd_of_version_eq (Contents.version_eq_iff.mpr hsame.1)
    rw [Contents.odd_settled, hodd] at hparity
    simp at hparity
  rw [h.recovers_survivor hk hother hodd]
  cases hmixed : codec.mixed f c k with
  | none => simp [survivor, hb, Contents.Same.rfl]
  | some t =>
    simp only [survivor, hb, Option.some.injEq, forall_eq']
    split
    case isTrue houtranks => simp [hnever t, houtranks]
    case isFalse houtranks => simp [Contents.Same.rfl, houtranks]

/-- A store that replaces the current contents is recovered only if the mixture is one of them,
since what the other stream holds is older. -/
theorem Represents.recovers_same (h : codec.Represents f b (some other))
    (hsame : c.version = b.version) (hk : 0 < k) :
    codec.Recovers f b c k ↔
      ∃ t, codec.mixed f c k = some t ∧ t.Outranks c.odd other ∧
        ((t.settled c.odd).Same b ∨ (t.settled c.odd).Same c) := by
  have hbehind := h.behind.writeChunks (full_take codec c k) (Contents.odd_of_version_eq hsame)
  obtain ⟨hstored, hodd, hlt⟩ := hbehind
  rw [← Contents.odd_of_version_eq hsame] at hodd
  have hother := hstored.decodeStream
  rw [hodd] at hother
  have hold : ∀ d : Contents, d.version = b.version →
      ¬(if other.version = 0 then {} else other : Contents).Same d := by
    intro d hd hsame
    have hversion := Contents.version_eq_iff.mpr hsame.1
    split at hversion
    case isTrue hzero =>
      have hempty : Contents.version {} = 0 := rfl
      omega
    case isFalse => omega
  rw [h.recovers_survivor hk hother hodd]
  cases hmixed : codec.mixed f c k with
  | none => simp [survivor, hold b rfl, hold c hsame]
  | some t =>
    simp only [survivor, Option.some.injEq, exists_eq_left']
    split
    case isTrue houtranks => simp [houtranks]
    case isFalse houtranks => simp [houtranks, hold b rfl, hold c hsame]

/-- Storing the same contents again changes nothing. -/
theorem Represents.torn_self (h : codec.Represents f b previous) (k : Nat) :
    codec.Represents (codec.torn f b k) b previous where
  size := h.size.trans_le size_le_writeChunks
  header := validateMagic_writeChunks h.header
  stored := ⟨h.stored.fits, h.stored.holds.rewrite (full_chunksOf codec b) k⟩
  behind := h.behind.writeChunks (full_take codec b k) rfl

theorem Represents.fresh (h : codec.Represents f b previous) (hzero : b.version = 0 → b = {}) :
    ∃ r, codec.fileDatabase f = some (f, r) ∧ r.Same b := by
  refine ⟨_, h.fileDatabase, Contents.arrange_same_iff.mpr ?_⟩
  rw [Versioned.refresh]
  split
  case isTrue => exact .rfl
  case isFalse hle =>
    have hempty : Contents.version {} = 0 := rfl
    rw [hzero (by omega)]
    exact .rfl

theorem Represents.recovers_none (h : codec.Represents f b previous)
    (hzero : b.version = 0 → b = {}) : codec.Recovers f b c 0 := by
  obtain ⟨r, hfile, hsame⟩ := h.fresh hzero
  exact ⟨r, hfile, .inl hsame⟩

theorem Represents.recovers_whole (h : codec.Represents f b previous) (hfits : codec.Fits c)
    (hnext : c.version = b.version + 1 ∨ c.version = b.version)
    (hzero : c.version = 0 → c = {}) : codec.Recovers f b c (codec.chunksOf c).length := by
  have hretire : codec.retireToStorage f c = some (codec.torn f c (codec.chunksOf c).length) := by
    rw [retireToStorage, if_pos hfits, torn, List.take_length]
  have hrep : ∃ previous,
      codec.Represents (codec.torn f c (codec.chunksOf c).length) c previous := by
    rcases hnext with hnext | hsame
    · exact ⟨_, h.retire_next hnext hretire⟩
    · exact ⟨_, h.retire_same hsame hretire⟩
  obtain ⟨_, hrep⟩ := hrep
  obtain ⟨r, hfile, hsame⟩ := hrep.fresh hzero
  exact ⟨r, hfile, .inr hsame⟩

/-- A store that is cut off between two blocks. -/
theorem Represents.recovers_iff_harmless (h : codec.Represents f b previous)
    (hb : b.version = 0 → b = {})
    (hnext : c.version = b.version + 1 ∨ c.version = b.version ∧ (b.version = 0 → c = b))
    (hk : 0 < k) : codec.Recovers f b c k ↔ codec.Harmless f b c k := by
  rw [Harmless]
  rcases hnext with hnext | ⟨hsame, hzero⟩
  · rw [if_neg (fun heq => by have := Contents.version_eq_iff.mpr heq; omega)]
    exact h.recovers_next hb hnext hk
  · rw [if_pos (Contents.version_eq_iff.mp hsame), Contents.odd_of_version_eq hsame,
      h.behind.decodeStream]
    cases previous with
    | some other =>
      rw [h.recovers_same hsame hk, Contents.odd_of_version_eq hsame]
      simp
    | none =>
      cases hzero h.behind.2
      have hself := h.torn_self k
      have hmixed : codec.mixed f b k = some b := by
        rw [mixed, hself.stored.decodeStream]
        rfl
      have hsettled : b.settled b.odd = b := Contents.settled_of_odd rfl
      obtain ⟨r, hfile, hr⟩ := hself.fresh hb
      simp only [Option.some.injEq, reduceCtorEq, false_implies, implies_true, true_and]
      exact ⟨fun _ => ⟨b, hmixed, .inl (hsettled.symm ▸ .rfl)⟩, fun _ => ⟨r, hfile, .inl hr⟩⟩

/-- A store can be cut off anywhere if and only if the mixtures on its way do no harm. -/
theorem Represents.recovers_iff (h : codec.Represents f b previous) (hb : b.version = 0 → b = {})
    (hc : c.version = 0 → c = {}) (hfits : codec.Fits c)
    (hnext : c.version = b.version + 1 ∨ c.version = b.version ∧ (b.version = 0 → c = b)) :
    (∀ k ≤ (codec.chunksOf c).length, codec.Recovers f b c k) ↔
      ∀ k, 0 < k → k < (codec.chunksOf c).length → codec.Harmless f b c k := by
  constructor
  · intro hall k hpos hlt
    exact (h.recovers_iff_harmless hb hnext hpos).mp (hall k hlt.le)
  · intro hharmless k hle
    rcases Nat.eq_zero_or_pos k with rfl | hpos
    · exact h.recovers_none hb
    · rcases hle.eq_or_lt with rfl | hlt
      · exact h.recovers_whole hfits (hnext.imp_right And.left) hc
      · exact (h.recovers_iff_harmless hb hnext hpos).mpr (hharmless k hpos hlt)

/-- The mixture behind the first block, if it happens to be an encoding. -/
theorem Stored.mixed_one {old mixture : Contents} (h : codec.Stored f old) (hodd : old.odd = c.odd)
    (hfits : codec.Fits mixture) (hmixture : indexToBlockSize 0 < (codec.encode mixture).length)
    (hold : indexToBlockSize 0 < (codec.encode old).length)
    (hc : indexToBlockSize 0 < (codec.encode c).length)
    (htake : (codec.encode mixture).take (indexToBlockSize 0) =
      (codec.encode c).take (indexToBlockSize 0))
    (hdrop : (codec.encode mixture).drop (indexToBlockSize 0) =
      (codec.encode old).drop (indexToBlockSize 0)) :
    codec.mixed f c 1 = some mixture := by
  have hfull := full_chunksOf codec c
  have hholds := h.holds
  rw [chunksOf, chunks_of_lt hc] at hfull
  rw [chunksOf, chunks_of_lt hold, hodd] at hholds
  have htorn : codec.torn f c 1 =
      f.write (indexToBlockOffset 0 c.odd) ((codec.encode c).take (indexToBlockSize 0)) := by
    rw [torn, chunksOf, chunks_of_lt hc, List.take_succ_cons, List.take_zero]
    rfl
  have hmixed : Holds (codec.torn f c 1) c.odd 0 (chunks 0 (codec.encode mixture)) := by
    rw [htorn, chunks_of_lt hmixture, htake, hdrop]
    exact ⟨readChunk_write hfull.1, hholds.2.write hfull.1 Nat.zero_lt_one⟩
  obtain ⟨rest, hstream⟩ := hmixed.inputStream hfits
  rw [mixed, ContentsCodec.decodeStream, hstream, Option.map_some,
    codec.decode_encode mixture rest hfits]
  rfl

end ContentsCodec

/-! ## Operations -/

/-- An operation that has to store `c` next, in a file where it has stored `b` last. -/
inductive RootFile.Storing (codec : ContentsCodec) (db : RootFile) (handle : Nat)
    (op : Operation) : File → Contents → Contents → Prop
  | intro {base c : Contents} {done rest : List Contents} {f : File}
      (fetched : db.fetched codec handle = some base)
      (stores : (op.plan base).stores = done ++ c :: rest)
      (storeAll : RootFile.storeAll codec db.file done = some f) (fits : codec.Fits c) :
      Storing codec db handle op f (done.getLast?.getD db.stored) c

namespace RootFile

variable {codec : ContentsCodec} {db db₀ : RootFile} {handle : Nat} {op : Operation} {f : File}
  {b c : Contents} {actions : List Action}

/-- A store is of the next revision, or replaces the current contents. -/
theorem Sound.storing (h : db.Sound codec) (hroom : View.Room (.operate handle op) db.toView)
    (hstoring : db.Storing codec handle op f b c) :
    (∃ previous, codec.Represents f b previous) ∧ (b.version = 0 → b = {}) ∧
      (c.version = 0 → c = {}) ∧ codec.Fits c ∧
      (c.version = b.version + 1 ∨ c.version = b.version ∧ (b.version = 0 → c = b)) := by
  obtain ⟨previous, hrep⟩ := h.represents
  obtain ⟨hfetched, hstores, hdone, hfits⟩ := hstoring
  rename_i base done rest
  rw [h.fetched] at hfetched
  obtain ⟨cached, hcached, rfl⟩ := Option.map_eq_some_iff.mp hfetched
  have hversion := View.version_basis (h.ok.cached_le handle cached hcached)
  cases hop : op.inPlace with
  | true =>
    obtain ⟨c', hplan, hrev, hempty, -⟩ := plan_inPlace (db.basis cached) hop
    obtain ⟨rfl, rfl, rfl⟩ : done = [] ∧ c = c' ∧ rest = [] := by
      rw [hplan] at hstores
      cases done with
      | nil => simpa using hstores.symm
      | cons d done => simp at hstores
    cases hdone
    have hc : c.version = db.stored.version := (Contents.version_eq_iff.mpr hrev).trans hversion
    have hzero : db.stored.version = 0 → c = {} := fun hb => hempty (h.ok.basis_zero hcached hb)
    refine ⟨⟨previous, hrep⟩, h.ok.stored_zero, fun hc' => hzero (hc ▸ hc'), hfits, .inr ⟨hc, ?_⟩⟩
    intro hb
    rw [hzero hb]
    exact (h.ok.stored_zero hb).symm
  | false =>
    have hsucc := hstores ▸ plan_successive (db.basis cached) hop
    obtain ⟨hdones, hrev⟩ := hsucc.append
    have hspace := hroom cached hcached hop
    rw [hstores, List.length_append, List.length_cons] at hspace
    have hspace' : (db.basis cached).version + done.length < 2 ^ 64 := by omega
    have hlast := hdones.version_last hspace'
    have hb : (done.getLast?.getD db.stored).version = db.stored.version + done.length ∧
        (done.getLast?.getD (db.basis cached)).version = db.stored.version + done.length := by
      cases hl : done.getLast? with
      | none => simp [List.getLast?_eq_none_iff.mp hl, hversion]
      | some last => simp [hlast last hl, hversion]
    have hc := Contents.version_next (by omega) hrev
    refine ⟨storeAll_next hrep hversion hdones hspace' hdone, fun hzero => ?_, fun hzero => ?_,
      hfits, .inl (by omega)⟩
    · have hnil : done = [] := List.length_eq_zero_iff.mp (by omega)
      subst hnil
      exact h.ok.stored_zero (by omega)
    · omega

/-! ## A mixture of three revisions -/

/-- File names of 252 bytes that differ in the last one. -/
def longName (i : Nat) : Bytes := List.replicate 251 97 ++ [.ofNat (65 + i)]

def longContainers : List RecordContainerMeta :=
  (List.range 16).map fun i => ⟨longName i, 0, 0, .ofNat (2 + i)⟩

/-- Eighteen containers, with the sizes of the first and the last one. -/
def listing (revision : UInt64) (first last : UInt32) : Contents where
  revision := revision
  recordContainers := ⟨[49], first, 0, 1⟩ :: longContainers ++ [⟨[50], last, 0, 18⟩]

def updateSize (rotation newSize : UInt32) : Operation :=
  .updateRecordContainerSize 0 rotation newSize

def createListing : List Action :=
  ([49] :: (List.range 16).map longName ++ [[50]]).map fun path =>
    .operate 0 (.createRecordContainer (fun _ => path) 0 [.opened])

/-- What is encoded before the last container fills the first block. -/
def front (revision : UInt64) (first : UInt32) : Bytes :=
  Cbor.encodeHead 5 4 ++ (Codec.emitUInt 0 ++ (Codec.emitUInt 0 ++ (Codec.emitUInt 1 ++
    (Codec.emitUInt revision.toNat ++ (Codec.emitUInt 2 ++ (Cbor.encodeHead 4 18 ++
      (Plain.encodeContainer ⟨[49], first, 0, 1⟩ ++
        longContainers.flatMap Plain.encodeContainer)))))))

theorem encode_listing (revision : UInt64) (first last : UInt32) :
    Plain.encode (listing revision first last) = front revision first ++
      (Plain.encodeContainer ⟨[50], last, 0, 18⟩ ++
        (Codec.emitUInt 3 ++ (Plain.emitList Plain.encodeBus [] ++ []))) := by
  simp only [Plain.encode, listing, front, Plain.emitList, List.cons_append, List.flatMap_cons,
    List.flatMap_append, List.flatMap_nil, List.append_assoc, List.append_nil]
  rfl

/-- The handle behind the creation of the containers. -/
def created : View where
  handles := [some (listing 18 0 0)]
  linked := true
  stored := listing 18 0 0
  left := listing 18 0 0

theorem createListing_run : ∃ db₀ db, create Plain.codec = some db₀ ∧
    Runs.run (step Plain.codec) (createListing ++ [.operate 0 (updateSize 18 7)]) db₀ = some db ∧
    Runs.Along (step Plain.codec) (fun action db => View.Room action db.toView)
      (createListing ++ [.operate 0 (updateSize 18 7)]) db₀ ∧
    db.Sound Plain.codec ∧
    db.toView = { created with stored := listing 19 0 7, left := listing 19 0 7 } ∧
    Plain.codec.Stored db.file (listing 18 0 0) := by
  have hfits : Plain.codec.Fits {} := by decide +kernel
  have hview : Runs.run (View.step Plain.codec) createListing View.created = some created := by
    decide +kernel
  have hroom : Runs.Along (View.step Plain.codec) View.Room
      (createListing ++ [.operate 0 (updateSize 18 7)]) View.created := by
    decide +kernel
  have hupdate : View.step Plain.codec (.operate 0 (updateSize 18 7)) created =
      some { created with stored := listing 19 0 7, left := listing 19 0 7 } := by
    decide +kernel
  obtain ⟨db₀, hcreate, hcreated⟩ := create_of_fits hfits
  have hsound := create_sound hcreate
  have ⟨hroom₁, hroom₂⟩ := hroom.append hview
  rw [← hcreated] at hroom hroom₁ hview
  obtain ⟨db₁, hrun₁, hdb₁, hsound₁⟩ := hsound.run_of_view hroom₁ hview
  rw [← hdb₁] at hupdate hroom₂
  rw [← hsound₁.step_toView] at hupdate
  obtain ⟨db, hstep, hdb⟩ := Option.map_eq_some_iff.mp hupdate
  refine ⟨db₀, db, hcreate, ?_, hsound.along_of_view (fun _ _ => id) hroom,
    hsound₁.step hroom₂.1 hstep, hdb₁ ▸ hdb, ?_⟩
  · rw [Runs.run_append hrun₁]
    exact Runs.run_cons_eq_some.mpr ⟨db, hstep, rfl⟩
  · obtain ⟨previous, hrep⟩ := hsound₁.represents
    obtain ⟨cached, hcached, hstore, -⟩ := hsound₁.operate hstep
    rw [hdb₁] at hcached hstore hrep
    cases hcached
    have hplan : ((updateSize 18 7).plan (created.basis (listing 18 0 0))).stores =
        [listing 19 0 7] := by
      decide +kernel
    rw [hplan, storeAll_singleton] at hstore
    have hnext : (listing 19 0 7).version = created.stored.version + 1 := by decide +kernel
    exact (hrep.retire_next hnext hstore).behind.1

theorem updateSize_storing : ∃ db₀ db, create Plain.codec = some db₀ ∧
    Runs.Along (step Plain.codec) (fun action db => View.Room action db.toView)
      (createListing ++ [.operate 0 (updateSize 18 7)]) db₀ ∧
    Runs.run (step Plain.codec) (createListing ++ [.operate 0 (updateSize 18 7)]) db₀ = some db ∧
    View.Room (.operate 0 (updateSize 1 5)) db.toView ∧
    db.Storing Plain.codec 0 (updateSize 1 5) db.file (listing 19 0 7) (listing 20 5 7) ∧
    Plain.codec.Stored db.file (listing 18 0 0) := by
  obtain ⟨db₀, db, hcreate, hrun, hroom, hsound, hdb, hold⟩ := createListing_run
  have hfetched : db.fetched Plain.codec 0 = some (listing 19 0 7) := by
    rw [hsound.fetched, hdb]
    decide +kernel
  have hplan : ((updateSize 1 5).plan (listing 19 0 7)).stores = [] ++ listing 20 5 7 :: [] := by
    decide +kernel
  have hfits : Plain.codec.Fits (listing 20 5 7) := by decide +kernel
  have hstored : db.stored = listing 19 0 7 := by rw [hdb]
  refine ⟨db₀, db, hcreate, hroom, hrun, ?_, hstored ▸ .intro hfetched hplan rfl hfits, hold⟩
  rw [hdb]
  decide +kernel

/-- The first block of the new revision and the second one of the revision that is overwritten. -/
theorem mixed_listing {f : File} (hold : Plain.codec.Stored f (listing 18 0 0)) :
    Plain.codec.mixed f (listing 20 5 7) 1 = some (listing 20 5 0) := by
  have hfront : indexToBlockSize 0 ≤ (front 20 5).length := by decide +kernel
  have htake : ∀ last, (Plain.encode (listing 20 5 last)).take (indexToBlockSize 0) =
      (front 20 5).take (indexToBlockSize 0) := by
    intro last
    rw [encode_listing, List.take_append_of_le_length hfront]
  exact hold.mixed_one (by decide +kernel) (by decide +kernel) (by decide +kernel)
    (by decide +kernel) (by decide +kernel) ((htake 0).trans (htake 7).symm) (by decide +kernel)

theorem two_chunks : 1 < (Plain.codec.chunksOf (listing 20 5 7)).length := by
  have hlong : indexToBlockSize 0 < (Plain.codec.encode (listing 20 5 7)).length := by
    decide +kernel
  rw [ContentsCodec.chunksOf, chunks_of_lt hlong, List.length_cons]
  exact Nat.succ_lt_succ (List.length_pos_iff.mpr (chunks_ne_nil _ _))

/-- The mixture has neither the old size of the first container nor the new one of the last. -/
theorem listing_not_harmless {f : File} (hold : Plain.codec.Stored f (listing 18 0 0)) :
    ¬Plain.codec.Harmless f (listing 19 0 7) (listing 20 5 7) 1 := by
  have hrevision : (listing 20 5 7).revision ≠ (listing 19 0 7).revision := by decide +kernel
  have houtranks : (listing 20 5 0).Outranks (listing 20 5 7).odd (listing 19 0 7) := by
    decide +kernel
  intro hharmless
  rw [ContentsCodec.Harmless, if_neg hrevision] at hharmless
  obtain ⟨-, hcontainers, -⟩ := hharmless _ (mixed_listing hold) houtranks
  rw [Contents.settled_of_odd (by decide +kernel)] at hcontainers
  have hlost : (⟨[50], 0, 0, 18⟩ : RecordContainerMeta) ∈ (listing 20 5 7).recordContainers :=
    hcontainers.mem_iff.mp (by simp [listing])
  exact absurd hlost (by decide +kernel)

/-- Whatever the operations before it, a store can be cut off anywhere if and only if none of the
mixtures on its way is decoded as something else. -/
theorem store_recovers_iff (hcreate : create codec = some db₀)
    (hroom : Runs.Along (step codec) (fun action db => View.Room action db.toView) actions db₀)
    (hrun : Runs.run (step codec) actions db₀ = some db)
    (hop : View.Room (.operate handle op) db.toView)
    (hstoring : db.Storing codec handle op f b c) :
    (∀ k ≤ (codec.chunksOf c).length, codec.Recovers f b c k) ↔
      ∀ k, 0 < k → k < (codec.chunksOf c).length → codec.Harmless f b c k := by
  have hsound := (create_sound hcreate).run hroom hrun
  obtain ⟨⟨previous, hrep⟩, hb, hc, hfits, hnext⟩ := hsound.storing hop hstoring
  exact hrep.recovers_iff hb hc hfits hnext

theorem store_recovers_iff_listing : ∃ db₀ db, create Plain.codec = some db₀ ∧
    Runs.run (step Plain.codec) (createListing ++ [.operate 0 (updateSize 18 7)]) db₀ = some db ∧
    ((∀ k ≤ (Plain.codec.chunksOf (listing 20 5 7)).length,
        Plain.codec.Recovers db.file (listing 19 0 7) (listing 20 5 7) k) ↔
      ∀ k, 0 < k → k < (Plain.codec.chunksOf (listing 20 5 7)).length →
        Plain.codec.Harmless db.file (listing 19 0 7) (listing 20 5 7) k) := by
  obtain ⟨db₀, db, hcreate, hroom, hrun, hop, hstoring, -⟩ := updateSize_storing
  exact ⟨db₀, db, hcreate, hrun, store_recovers_iff hcreate hroom hrun hop hstoring⟩

/-- Sizes that are updated one after the other: the store of the first is cut off behind its first
block, and the other one is what it was two revisions before. -/
theorem store_not_recovered : ¬∀ (codec : ContentsCodec) (actions : List Action)
    (db₀ db : RootFile) (handle : Nat) (op : Operation) (f : File) (b c : Contents) (k : Nat),
    create codec = some db₀ → Runs.run (step codec) actions db₀ = some db →
      db.Storing codec handle op f b c → k ≤ (codec.chunksOf c).length →
      codec.Recovers f b c k := by
  intro h
  obtain ⟨db₀, db, hcreate, hroom, hrun, hop, hstoring, hold⟩ := updateSize_storing
  have hrecovers := h _ _ _ _ _ _ _ _ _ 1 hcreate hrun hstoring two_chunks.le
  have hsound := (create_sound hcreate).run hroom hrun
  obtain ⟨⟨previous, hrep⟩, hb, -, -, hnext⟩ := hsound.storing hop hstoring
  have hharmless := (hrep.recovers_iff_harmless hb hnext Nat.zero_lt_one).mp hrecovers
  exact listing_not_harmless hold hharmless

end RootFile

end Deeplog.Database

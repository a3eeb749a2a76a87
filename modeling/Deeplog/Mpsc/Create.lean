import Deeplog.Codec.Primitives
import Deeplog.Lib.File
import Deeplog.Mpsc.Recovery
import Deeplog.Sink.FileSink

/-!
# Bus files

`mpsc_bus_handle::mpsc_bus` lays out a file: a head area of one page with the parameters of the
bus, and the regions behind it. `recover_mpsc_bus` reads the parameters back and checks them
again. The two do not check the same number: one looks at the size that was asked for, the other
at what it has been rounded up to.
-/

namespace Deeplog.Mpsc

def pageSize : Nat := 4 * 1024

/-- `mpsc_bus_handle::magic` -/
def busMagic : Bytes :=
  [0x82, 0x50, 0x0d, 0x0a, 0xab, 0x7e, 0x7b, 0x64, 0x6d, 0x70, 0x73, 0x63, 0x62, 0x7d, 0x7e, 0xbb,
    0x0a, 0x1a]

/-- The error codes of this library that creation and recovery can end with. -/
inductive Errc where
  | invalidArgument
  | missingData
  | invalidDmpscbHeader
  | invalidDmpscbParameters
  | invalidDmpscbFileSize
  deriving DecidableEq

/-- A failure in the domain of `errc`, or one of the operating system. -/
inductive Failure where
  | code (code : Errc)
  | system
  deriving DecidableEq

/-- What the `log_clock` has for an epoch. -/
abbrev ClockEpoch := { epoch : Sink.Epoch // epoch.InRange }

/-- `mpsc_bus_info_v00` -/
structure MpscBusInfo where
  numRegions : UInt32
  regionSize : UInt32
  epoch : ClockEpoch

/-- The object codec of deeppack for `mpsc_bus_info`. -/
structure InfoCodec where
  encode : MpscBusInfo → Bytes
  decode : Bytes → Option MpscBusInfo
  decode_encode : ∀ info rest, decode (encode info ++ rest) = some info
  encode_length : ∀ info, (encode info).length ≤ pageSize - busMagic.length

/-- The members of a handle next to its mapped file. -/
structure Handle where
  numRegions : UInt32
  regionSize : UInt32
  deriving DecidableEq

/-- `mpsc_bus_handle::region`, as an offset in the file. -/
def Handle.regionAddress (self : Handle) (which : Nat) : Nat :=
  headAreaSize + which * self.regionSize.toNat

/-- The size of the data area of a region. -/
def Handle.regionEnd (self : Handle) : Nat := self.regionSize.toNat - regionCtrlOverhead

/-- A region as it lies in the file. -/
def Handle.region (self : Handle) (file : File) (which : Nat) : Region where
  readPtr := loadWord file.byte (self.regionAddress which)
  allocPtr := loadWord file.byte (self.regionAddress which + 4)
  data x := file.byte (self.regionAddress which + regionCtrlOverhead + x)

/-- A file handle, with which of the calls on it succeed. -/
structure Backing where
  valid : Bool
  writable : Bool
  lockFile : Bool
  truncate : Bool
  maximumExtent : Bool
  file : File

inductive LockKind where
  | unlocked | shared | exclusive
  deriving DecidableEq

/-! ## Creation -/

/-- `cncr::round_up_p2(regionSize, page_size)` -/
def realRegionSize (regionSize : UInt32) : Nat := roundUpP2 regionSize.toNat pageSize

/-- The checks of `mpsc_bus` on its parameters, which lead to the size of the file. -/
def busFileSize (numRegions regionSize : UInt32) : Except Failure Nat :=
  if numRegions.toNat = 0 ∨ numRegions.toNat &&& messageFlagMask ≠ 0 ∨
      regionSize.toNat < minRegionSize then
    .error (.code .invalidArgument)
  else if 2 ^ 32 - 1 - pageSize < regionSize.toNat then .error (.code .invalidArgument)
  else
    let realRegionSize := realRegionSize regionSize
    let combinedRegionSize := numRegions.toNat * realRegionSize % 2 ^ 64
    if combinedRegionSize / realRegionSize ≠ numRegions.toNat then .error (.code .invalidArgument)
    else
      let fileSize := (combinedRegionSize + headAreaSize) % 2 ^ 64
      if fileSize < combinedRegionSize then .error (.code .invalidArgument) else .ok fileSize

/-- A region behind its initialisation. -/
def regionImage (realRegionSize : Nat) : Bytes :=
  List.replicate regionCtrlOverhead 0 ++
    List.replicate ((realRegionSize - regionCtrlOverhead) / blockSize * blockSize) 0xfe

/-- The loop over the regions. -/
def initializeRegions (realRegionSize numRegions : Nat) (file : File) : File :=
  (List.range numRegions).foldl
    (fun file which => file.write (headAreaSize + which * realRegionSize)
      (regionImage realRegionSize)) file

/-- `mpsc_bus_handle::mpsc_bus` on a file handle: the bus handle, and the file. -/
def mpscBus (codec : InfoCodec) (epoch : ClockEpoch) (backing : Backing)
    (numRegions regionSize : UInt32) (lockState : LockKind) : Except Failure (Handle × File) :=
  if backing.valid = false ∨ backing.writable = false then .error (.code .invalidArgument)
  else match busFileSize numRegions regionSize with
    | .error failure => .error failure
    | .ok fileSize =>
      if lockState ≠ .exclusive ∧ backing.lockFile = false then .error .system
      else if backing.truncate = false then .error .system
      else
        let info : MpscBusInfo := ⟨numRegions, .ofNat (realRegionSize regionSize), epoch⟩
        let file := ((backing.file.truncate fileSize).write 0 busMagic).write busMagic.length
          (codec.encode info)
        .ok (⟨numRegions, .ofNat (realRegionSize regionSize)⟩,
          initializeRegions (realRegionSize regionSize) numRegions.toNat file)

/-! ## Recovery -/

/-- The checks of `recover_mpsc_bus` on the file, which lead to its own handle. -/
def readHead (codec : InfoCodec) (file : File) : Except Failure Handle :=
  if file.size < pageSize then .error (.code .missingData)
  else if slice file.byte 0 busMagic.length ≠ busMagic then .error (.code .invalidDmpscbHeader)
  else match codec.decode (slice file.byte busMagic.length (pageSize - busMagic.length)) with
    | none => .error (.code .invalidDmpscbHeader)
    | some info =>
      if info.numRegions.toNat = 0 ∨ info.numRegions.toNat &&& messageFlagMask ≠ 0 ∨
          info.regionSize.toNat < minRegionSize ∨
          2 ^ 32 - 1 - pageSize < info.regionSize.toNat ∨
          info.regionSize.toNat % pageSize ≠ 0 then
        .error (.code .invalidDmpscbParameters)
      else if pageSize + info.numRegions.toNat * info.regionSize.toNat ≠ file.size then
        .error (.code .invalidDmpscbFileSize)
      else .ok ⟨info.numRegions, info.regionSize⟩

/-- `mpsc_bus_handle::recover_mpsc_bus`: the batches given to `consume`. -/
def recoverMpscBus (codec : InfoCodec) (skipItem : Bytes → Bool) (backing : Backing)
    (lockState : LockKind) : Except Failure (List (List Bytes)) :=
  if backing.valid = false ∨ backing.writable = false then .error (.code .invalidArgument)
  else if lockState ≠ .exclusive ∧ backing.lockFile = false then .error .system
  else if backing.maximumExtent = false then .error .system
  else (readHead codec backing.file).map fun self =>
    (List.range self.numRegions.toNat).flatMap fun which =>
      recoverRegion skipItem self.regionEnd (self.region backing.file which)

/-! ## What creation accepts -/

/-- The parameters that get past the checks of `mpsc_bus`. -/
structure Accepted (numRegions regionSize : UInt32) : Prop where
  pos : numRegions.toNat ≠ 0
  flags : numRegions.toNat &&& messageFlagMask = 0
  min_le : minRegionSize ≤ regionSize.toNat
  le_max : regionSize.toNat ≤ 2 ^ 32 - 1 - pageSize

instance (numRegions regionSize : UInt32) : Decidable (Accepted numRegions regionSize) :=
  decidable_of_iff
    (numRegions.toNat ≠ 0 ∧ numRegions.toNat &&& messageFlagMask = 0 ∧
      minRegionSize ≤ regionSize.toNat ∧ regionSize.toNat ≤ 2 ^ 32 - 1 - pageSize)
    ⟨fun ⟨h1, h2, h3, h4⟩ => ⟨h1, h2, h3, h4⟩, fun h => ⟨h.pos, h.flags, h.min_le, h.le_max⟩⟩

section Accepted

variable {numRegions regionSize : UInt32}

theorem Accepted.realRegionSize_spec (h : Accepted numRegions regionSize) :
    regionSize.toNat ≤ realRegionSize regionSize ∧
      realRegionSize regionSize < regionSize.toNat + pageSize ∧
      realRegionSize regionSize % pageSize = 0 ∧ realRegionSize regionSize < 2 ^ 32 := by
  have hmax := h.le_max
  simp only [pageSize] at *
  simp only [realRegionSize, roundUpP2, pageSize, u32]
  omega

theorem Accepted.realRegionSize_eq_round (h : Accepted numRegions regionSize)
    (r : Rounding.RoundUpP2) : realRegionSize regionSize = r.round regionSize pageSize := by
  have hmax := h.le_max
  unfold pageSize at hmax
  exact roundUpP2_eq_round r (k := 12) (by omega)

/-- None of the later checks of `mpsc_bus` fails. -/
theorem busFileSize_eq_ok_iff {fileSize : Nat} :
    busFileSize numRegions regionSize = .ok fileSize ↔ Accepted numRegions regionSize ∧
      fileSize = headAreaSize + numRegions.toNat * realRegionSize regionSize := by
  by_cases h : Accepted numRegions regionSize
  · obtain ⟨hle, -, -, hlt⟩ := h.realRegionSize_spec
    have hpos : 0 < realRegionSize regionSize := by
      have := h.min_le
      unfold minRegionSize at this
      omega
    have hprod : numRegions.toNat * realRegionSize regionSize < 2 ^ 64 - 2 ^ 32 := by
      have hn := numRegions.toNat_lt
      calc numRegions.toNat * realRegionSize regionSize
          ≤ (2 ^ 32 - 1) * realRegionSize regionSize := Nat.mul_le_mul_right _ (by omega)
        _ ≤ (2 ^ 32 - 1) * (2 ^ 32 - 1) := Nat.mul_le_mul_left _ (by omega)
        _ < 2 ^ 64 - 2 ^ 32 := by decide
    have hcombined : numRegions.toNat * realRegionSize regionSize % 2 ^ 64 =
        numRegions.toNat * realRegionSize regionSize := Nat.mod_eq_of_lt (by omega)
    have hfile : (numRegions.toNat * realRegionSize regionSize + headAreaSize) % 2 ^ 64 =
        numRegions.toNat * realRegionSize regionSize + headAreaSize :=
      Nat.mod_eq_of_lt (by unfold headAreaSize; omega)
    have hfirst : ¬ (numRegions.toNat = 0 ∨ numRegions.toNat &&& messageFlagMask ≠ 0 ∨
        regionSize.toNat < minRegionSize) := by
      have := h.min_le
      simp only [h.pos, h.flags, false_or, ne_eq, not_true_eq_false]
      omega
    have hsecond : ¬ 2 ^ 32 - 1 - pageSize < regionSize.toNat := by have := h.le_max; omega
    simp only [busFileSize, if_neg hfirst, if_neg hsecond, hcombined, Nat.mul_div_left _ hpos,
      hfile, ne_eq, not_true_eq_false, if_false, h, true_and]
    rw [if_neg (by omega), Except.ok.injEq, Nat.add_comm headAreaSize]
    exact eq_comm
  · refine iff_of_false (fun heq => h ?_) (fun hc => h hc.1)
    unfold busFileSize at heq
    split at heq
    · cases heq
    · rename_i hfirst
      split at heq
      · cases heq
      · simp only [not_or, ne_eq, not_not] at hfirst
        exact ⟨hfirst.1, hfirst.2.1, by omega, by omega⟩

end Accepted

theorem Handle.regionSize_toNat {numRegions regionSize : UInt32}
    (h : Accepted numRegions regionSize) :
    (UInt32.ofNat (realRegionSize regionSize)).toNat = realRegionSize regionSize := by
  rw [UInt32.toNat_ofNat']
  exact Nat.mod_eq_of_lt h.realRegionSize_spec.2.2.2

/-! ## The head area -/

theorem slice_congr {data data' : Nat → UInt8} {p n : Nat}
    (h : ∀ i, p ≤ i → i < p + n → data i = data' i) : slice data p n = slice data' p n :=
  List.map_congr_left fun o ho => h _ (by omega) (by have := List.mem_range.mp ho; omega)

theorem slice_add (data : Nat → UInt8) (p m n : Nat) :
    slice data p (m + n) = slice data p m ++ slice data (p + m) n := by
  simp [slice, List.range_add, Nat.add_assoc]

/-- What has been written is found where it was written. -/
theorem slice_write (file : File) (p : Nat) (bs : Bytes) :
    slice (file.write p bs).byte p bs.length = bs := by
  refine List.ext_getElem (by simp [slice]) fun i hi hi' => ?_
  simp only [slice, List.getElem_map, List.getElem_range, File.write]
  rw [if_pos ⟨by omega, by omega⟩, Nat.add_sub_cancel_left, List.getD_eq_getElem _ _ hi']

/-- The regions lie behind the head area. -/
theorem initializeRegions_head (realRegionSize numRegions : Nat) (file : File) {i : Nat}
    (hi : i < headAreaSize) :
    (initializeRegions realRegionSize numRegions file).byte i = file.byte i := by
  induction numRegions with
  | zero => rfl
  | succ n ih =>
    rw [initializeRegions, List.range_succ, List.foldl_append]
    exact (File.byte_write_of_not_mem (by omega)).trans ih

theorem regionImage_length {size : Nat} (hle : regionCtrlOverhead ≤ size)
    (ha : size % pageSize = 0) : (regionImage size).length = size := by
  simp only [regionImage, List.length_append, List.length_replicate]
  simp only [regionCtrlOverhead, pageSize, blockSize] at *
  omega

/-- And they fill the file. -/
theorem initializeRegions_size {size : Nat} (hle : regionCtrlOverhead ≤ size)
    (ha : size % pageSize = 0) (numRegions total : Nat) (file : File) (hn : numRegions ≤ total)
    (hsize : file.size = headAreaSize + total * size) :
    (initializeRegions size numRegions file).size = headAreaSize + total * size := by
  induction numRegions with
  | zero => exact hsize
  | succ n ih =>
    rw [initializeRegions, List.range_succ, List.foldl_append]
    have hrest := ih (by omega)
    have hend : n * size + size ≤ total * size := by
      rw [← Nat.succ_mul]
      exact Nat.mul_le_mul_right _ hn
    rw [initializeRegions] at hrest
    rw [List.foldl_cons, List.foldl_nil, File.size_write, hrest, regionImage_length hle ha]
    omega

/-- The head area of a bus file: the magic number and the parameters. -/
structure HeadArea (codec : InfoCodec) (info : MpscBusInfo) (file : File) : Prop where
  magic : slice file.byte 0 busMagic.length = busMagic
  info : slice file.byte busMagic.length (codec.encode info).length = codec.encode info

section Head

variable {codec : InfoCodec} {info : MpscBusInfo} {file file' : File}

/-- Nothing but the head area matters. -/
theorem HeadArea.congr (h : HeadArea codec info file)
    (hbyte : ∀ i < headAreaSize, file'.byte i = file.byte i) : HeadArea codec info file' := by
  have hlen := codec.encode_length info
  have hmagic : busMagic.length ≤ pageSize := by decide
  unfold pageSize at hlen hmagic
  constructor
  · rw [slice_congr fun i _ hi => hbyte i (by unfold headAreaSize; omega)]
    exact h.magic
  · rw [slice_congr fun i _ hi => hbyte i (by unfold headAreaSize; omega)]
    exact h.info

theorem headArea_write (codec : InfoCodec) (info : MpscBusInfo) (file : File) :
    HeadArea codec info ((file.write 0 busMagic).write busMagic.length (codec.encode info)) := by
  constructor
  · rw [slice_congr fun i _ hi => File.byte_write_of_not_mem (by omega)]
    exact slice_write file 0 busMagic
  · exact slice_write _ _ _

/-- The parameters are decoded as they have been written. -/
theorem HeadArea.decode (h : HeadArea codec info file) :
    codec.decode (slice file.byte busMagic.length (pageSize - busMagic.length)) = some info := by
  have hlen := codec.encode_length info
  obtain ⟨rest, hrest⟩ := Nat.exists_eq_add_of_le hlen
  rw [hrest, slice_add, h.info]
  exact codec.decode_encode _ _

end Head

section Created

variable {codec : InfoCodec} {epoch : ClockEpoch} {backing : Backing}
  {numRegions regionSize : UInt32} {lockState : LockKind} {bus : Handle} {file file' : File}

/-- What a successful creation leaves behind. -/
structure Created (codec : InfoCodec) (epoch : ClockEpoch) (numRegions regionSize : UInt32)
    (bus : Handle) (file : File) : Prop where
  accepted : Accepted numRegions regionSize
  bus_eq : bus = ⟨numRegions, .ofNat (realRegionSize regionSize)⟩
  size : file.size = headAreaSize + numRegions.toNat * realRegionSize regionSize
  head : HeadArea codec ⟨bus.numRegions, bus.regionSize, epoch⟩ file

theorem mpscBus_created
    (h : mpscBus codec epoch backing numRegions regionSize lockState = .ok (bus, file)) :
    Created codec epoch numRegions regionSize bus file := by
  unfold mpscBus at h
  split at h
  · cases h
  · split at h
    · cases h
    · rename_i fileSize hsize
      obtain ⟨haccepted, rfl⟩ := busFileSize_eq_ok_iff.mp hsize
      obtain ⟨hle, -, ha, -⟩ := haccepted.realRegionSize_spec
      split at h
      · cases h
      · split at h
        · cases h
        · simp only [Except.ok.injEq, Prod.mk.injEq] at h
          obtain ⟨rfl, rfl⟩ := h
          have hmin := haccepted.min_le
          have hlen := codec.encode_length
            ⟨numRegions, .ofNat (realRegionSize regionSize), epoch⟩
          have hmagic : busMagic.length = 18 := rfl
          refine ⟨haccepted, rfl, ?_, ?_⟩
          · refine initializeRegions_size ?_ ha _ _ _ le_rfl ?_
            · unfold minRegionSize at hmin
              unfold regionCtrlOverhead
              omega
            · simp only [File.write, File.truncate, headAreaSize, hmagic, pageSize] at hlen ⊢
              omega
          · exact (headArea_write _ _ _).congr fun i hi => initializeRegions_head _ _ _ hi

/-- The size field of a bus that has been created is refused exactly if rounding has brought it
above the largest size that may be asked for. -/
theorem Created.readHead_eq (h : Created codec epoch numRegions regionSize bus file)
    (hsize : file'.size = file.size) (hbyte : ∀ i < headAreaSize, file'.byte i = file.byte i) :
    readHead codec file' =
      if 2 ^ 32 - 1 - pageSize < realRegionSize regionSize then
        .error (.code .invalidDmpscbParameters)
      else .ok bus := by
  have hhead := h.head.congr hbyte
  obtain ⟨hle, -, ha, -⟩ := h.accepted.realRegionSize_spec
  have hmin := h.accepted.min_le
  have hpos := h.accepted.pos
  have hflags := h.accepted.flags
  have hreal := Handle.regionSize_toNat h.accepted
  have hlarge : ¬ file'.size < pageSize := by
    rw [hsize, h.size, headAreaSize, pageSize]
    omega
  have hfits : pageSize + numRegions.toNat * realRegionSize regionSize = file'.size := by
    rw [hsize, h.size]
    rfl
  have hnum : bus.numRegions = numRegions := by rw [h.bus_eq]
  have hregion : bus.regionSize.toNat = realRegionSize regionSize := by rw [h.bus_eq, hreal]
  have hsmall : ¬ realRegionSize regionSize < minRegionSize := by omega
  have hself : Handle.mk numRegions bus.regionSize = bus := by rw [h.bus_eq]
  simp only [readHead, hlarge, hhead.magic, hhead.decode, hnum, hregion, hpos, hflags, hsmall, ha,
    hfits, hself, if_false, ne_eq, not_true_eq_false, false_or, or_false]

/-- Recovery accepts the file of a bus, whatever has happened in its regions, and finds the regions
where the bus has them, exactly if its region size does not round up to the last page. -/
theorem recovers_created_iff
    (h : mpscBus codec epoch backing numRegions regionSize lockState = .ok (bus, file))
    (hsize : file'.size = file.size) (hbyte : ∀ i < headAreaSize, file'.byte i = file.byte i) :
    (∃ self, readHead codec file' = .ok self ∧ self.numRegions = bus.numRegions ∧
      self.regionSize = bus.regionSize ∧
      ∀ which, self.regionAddress which = bus.regionAddress which) ↔
    regionSize.toNat ≤ 0xffffe000 := by
  have hcreated := mpscBus_created h
  obtain ⟨hle, hlt, ha, -⟩ := hcreated.accepted.realRegionSize_spec
  rw [hcreated.readHead_eq hsize hbyte]
  unfold pageSize at *
  constructor
  · rintro ⟨self, hself, -⟩
    split at hself
    · cases hself
    · omega
  · intro hsmall
    exact ⟨bus, if_neg (by omega), rfl, rfl, fun _ => rfl⟩

end Created

/-! ## Samples -/

open Codec (Parse Reads emitUInt expect readUInt32 reads_unsigned reads_expect reads_uint32)

/-- A signed 64-bit number. -/
def readInt64 : Parse Int := Codec.Primitives.integer (-2 ^ 63) (2 ^ 63 - 1)

/-- A tuple of the two references. -/
def readEpoch : Parse ClockEpoch := do
  expect (Codec.Primitives.fromHead (Codec.Primitives.argument .array)) 2
  let systemReference ← readInt64
  let steadyReference ← readInt64
  if h : Sink.Epoch.InRange ⟨systemReference, steadyReference⟩ then pure ⟨_, h⟩ else failure

/-- An object of three numbered properties behind its version. -/
def plainEncode (info : MpscBusInfo) : Bytes :=
  Cbor.encodeHead 5 4 ++ (emitUInt 0 ++ (emitUInt 0 ++ (emitUInt 1 ++
    (emitUInt info.numRegions.toNat ++ (emitUInt 2 ++ (emitUInt info.regionSize.toNat ++
      (emitUInt 3 ++ (info.epoch.val.encode ++ []))))))))

def plainDecode : Parse MpscBusInfo := do
  expect (Codec.Primitives.fromHead (Codec.Primitives.argument .map)) 4
  expect (Codec.Primitives.unsigned 3) 0
  expect (Codec.Primitives.unsigned 0) 0
  expect (Codec.Primitives.unsigned 3) 1
  let numRegions ← readUInt32
  expect (Codec.Primitives.unsigned 3) 2
  let regionSize ← readUInt32
  expect (Codec.Primitives.unsigned 3) 3
  let epoch ← readEpoch
  pure ⟨numRegions, regionSize, epoch⟩

theorem reads_epoch (epoch : ClockEpoch) : Reads readEpoch epoch.val.encode epoch := by
  obtain ⟨⟨system, steady⟩, hrange⟩ := epoch
  intro rest
  obtain ⟨⟨hs, hs'⟩, ht, ht'⟩ := id hrange
  have hhead : Reads (expect _ 2) (Cbor.encodeHead 4 2) () := reads_expect fun rest =>
    Codec.Primitives.argument_encodeHead .array (show 2 < 2 ^ 64 by decide) rest
  simp only [Sink.Epoch.encode, List.append_assoc]
  rw [readEpoch, Codec.Parse.bind_of_eq (hhead _), readInt64,
    Codec.Parse.bind_of_eq (Codec.Primitives.integer_int64 hs hs' _),
    Codec.Parse.bind_of_eq (Codec.Primitives.integer_int64 ht ht' _), dif_pos hrange]
  rfl

theorem reads_info (info : MpscBusInfo) : Reads plainDecode (plainEncode info) info := by
  have hhead := reads_expect fun rest =>
    Codec.Primitives.argument_encodeHead .map (show 4 < 2 ^ 64 by decide) rest
  have hkey {n max : Nat} (hn : n ≤ max) (hmax : max < 2 ^ 64) :=
    reads_expect (reads_unsigned hn hmax)
  refine hhead.bind <| (hkey (by decide) (by decide)).bind <|
    (hkey (by decide) (by decide)).bind <| (hkey (by decide) (by decide)).bind <|
    (reads_uint32 _).bind <| (hkey (by decide) (by decide)).bind <| (reads_uint32 _).bind <|
    (hkey (by decide) (by decide)).bind <| (reads_epoch _).bind ?_
  exact .pure _

theorem plainEncode_length (info : MpscBusInfo) : (plainEncode info).length ≤ 99 := by
  have hhead (major value : Nat) := (Cbor.encodeHead_length major value).2.1
  have hint (n : Int) : (Cbor.encodeInt n).length ≤ 9 := (Codec.Primitives.encodeInt_length n).2
  have h1 := hhead 5 4; have h2 := hhead 0 0; have h3 := hhead 0 1; have h4 := hhead 0 2
  have h5 := hhead 0 3; have h6 := hhead 0 info.numRegions.toNat
  have h7 := hhead 0 info.regionSize.toNat; have h8 := hhead 4 2
  have h9 := hint info.epoch.val.systemReference
  have h10 := hint info.epoch.val.steadyReference
  simp only [plainEncode, emitUInt, Sink.Epoch.encode, List.length_append, List.length_nil]
  omega

/-- The codec over plain CBOR. -/
def plainInfo : InfoCodec where
  encode := plainEncode
  decode bs := (plainDecode bs).map (·.1)
  decode_encode info rest := congrArg (Option.map (·.1)) (reads_info info rest)
  encode_length info := (plainEncode_length info).trans (by decide)

/-- An empty file that has just been opened and locked. -/
def newFile : Backing := ⟨true, true, true, true, true, .zeros 0⟩

def sampleEpoch : ClockEpoch := ⟨⟨1700000000000000000, 5000000000⟩, by decide⟩

theorem mpscBus_newFile {numRegions regionSize : UInt32} (h : Accepted numRegions regionSize) :
    ∃ bus file, mpscBus plainInfo sampleEpoch newFile numRegions regionSize .exclusive =
      .ok (bus, file) := by
  have hsize := busFileSize_eq_ok_iff.mpr ⟨h, rfl⟩
  exact ⟨_, _, by simp only [mpscBus, newFile, hsize]; rfl⟩

theorem recovers_created_iff_page : ∃ bus file,
    mpscBus plainInfo sampleEpoch newFile 2 4096 .exclusive = .ok (bus, file) ∧
    ∃ self, readHead plainInfo file = .ok self ∧ self.numRegions = bus.numRegions ∧
      self.regionSize = bus.regionSize ∧
      ∀ which, self.regionAddress which = bus.regionAddress which := by
  obtain ⟨bus, file, h⟩ := mpscBus_newFile (show Accepted 2 4096 by decide)
  exact ⟨bus, file, h, (recovers_created_iff h rfl fun _ _ => rfl).mpr (by decide)⟩

/-- A region size in front of the largest one accepted is rounded up to one that is refused. -/
theorem created_not_recovered : ¬ ∀ codec epoch backing numRegions regionSize lockState bus file,
    mpscBus codec epoch backing numRegions regionSize lockState = .ok (bus, file) →
      ∃ self, readHead codec file = .ok self ∧ self.numRegions = bus.numRegions ∧
        self.regionSize = bus.regionSize ∧
        ∀ which, self.regionAddress which = bus.regionAddress which := by
  intro hall
  have haccepted : Accepted 1 0xffffefff := by decide
  obtain ⟨bus, file, h⟩ := mpscBus_newFile haccepted
  obtain ⟨self, hself, -⟩ := hall _ _ _ _ _ _ bus file h
  rw [(mpscBus_created h).readHead_eq rfl fun _ _ => rfl, if_pos (by decide)] at hself
  cases hself

end Deeplog.Mpsc

import Deeplog.Mpsc.Range
import Deeplog.Source.SpanId

/-!
# The whole bus

The regions of a bus lie in one file, one behind the other, each with its hands, its span counter
and its data area. Producers work in any of them, `create_span_context` counts in one of them, and
`consume_messages` walks over all of them. Whatever they do, and however old the hands are that
they work with, a region goes through its own accesses as if it were alone.
-/

namespace Deeplog.Mpsc

/-! ## Words in a file -/

/-- A 32-bit word as it is stored. -/
def wordBytes (w : Nat) : Bytes := slice (storeWord (fun _ => 0) 0 w) 0 4

section Words

variable {file : File} {p q w : Nat} {bs : Bytes}

@[simp] theorem slice_length (data : Nat → UInt8) (p n : Nat) : (slice data p n).length = n := by
  simp [slice]

@[simp] theorem wordBytes_length (w : Nat) : (wordBytes w).length = 4 := slice_length ..

theorem byte_write_slice {data : Nat → UInt8} {n x : Nat} (h : x < n) :
    (file.write p (slice data q n)).byte (p + x) = data (q + x) := by
  have hin : p ≤ p + x ∧ p + x < p + n := by omega
  simp [File.write, slice, hin, h]

theorem loadWord_write (h : w < 2 ^ 32) : loadWord (file.write p (wordBytes w)).byte p = w := by
  have hstored := loadWord_storeWord (fun _ => 0) 0 h
  have hbyte : ∀ o < 4, (file.write p (wordBytes w)).byte (p + o) =
      storeWord (fun _ => 0) 0 w (0 + o) := fun o ho => byte_write_slice ho
  have h0 := hbyte 0 (by omega)
  rw [Nat.add_zero] at h0
  refine Eq.trans ?_ hstored
  simp only [loadWord, h0, hbyte 1 (by omega), hbyte 2 (by omega), hbyte 3 (by omega)]

/-- A word elsewhere. -/
theorem loadWord_write_of_disjoint (h : q + 4 ≤ p ∨ p + bs.length ≤ q) :
    loadWord (file.write p bs).byte q = loadWord file.byte q :=
  loadWord_congr fun _ _ => File.byte_write_of_not_mem (by omega)

end Words

/-! ## A region in the file -/

namespace Handle

variable (self : Handle)

/-- A region, with filler for what lies outside of its data area. -/
def window (file : File) (which : Nat) : Region where
  readPtr := (self.region file which).readPtr
  allocPtr := (self.region file which).allocPtr
  data x := if x < self.regionEnd then (self.region file which).data x else 0xfe

/-- The file with the hands and the data area of a region as given. -/
def storeWindow (which : Nat) (region : Region) (file : File) : File :=
  let ctx := self.regionAddress which
  ((file.write ctx (wordBytes region.readPtr)).write (ctx + 4) (wordBytes region.allocPtr)).write
    (ctx + regionCtrlOverhead) (slice region.data 0 self.regionEnd)

/-- `span_prng_ctr` of a region. -/
def spanPrngCtr (file : File) (which : Nat) : Source.U64 :=
  .ofNat 64 (loadWord file.byte (self.regionAddress which + 8) +
    2 ^ 32 * loadWord file.byte (self.regionAddress which + 12))

def storeSpanPrngCtr (which : Nat) (ctr : Source.U64) (file : File) : File :=
  let ctx := self.regionAddress which
  (file.write (ctx + 8) (wordBytes (ctr.toNat % 2 ^ 32))).write (ctx + 12)
    (wordBytes (ctr.toNat / 2 ^ 32))

/-- The counters of all regions. -/
def spanPrngCtrs (file : File) (which : Nat) : Source.U64 :=
  if which < self.numRegions.toNat then self.spanPrngCtr file which else 0

end Handle

/-! ## States and steps -/

/-- What belongs to a region but is not stored in the file: where the producers and the consumer
are, and the history of the messages. -/
structure Parties where
  consumer : Consumer
  messages : List Message
  released : Nat
  cleared : Nat
  delivered : List Bytes
  producers : Nat → Producer

def Parties.init : Parties := ⟨.idle, [], 0, 0, [], fun _ => .idle⟩

/-- A bus file with everyone at work on it. -/
structure WholeBus where
  file : File
  parties : Nat → Parties
  /-- the region that `consume_messages` is at -/
  reading : Option Nat
  /-- the results of `create_span_context` -/
  spans : List Source.SpanContext

/-- A step of a thread that allocates, writes and commits. -/
def Access.OfProducer : Access → Prop
  | .consume => False
  | _ => True

instance : (access : Access) → Decidable access.OfProducer
  | .consume => .isFalse id
  | .loadRead _ _ | .loadAlloc _ | .exchange _ _ | .storeHead _ | .write _ _ _ | .commit _ =>
    .isTrue trivial

namespace WholeBus

def start (file : File) : WholeBus := ⟨file, fun _ => .init, none, []⟩

/-- One region with its parties. -/
def shared (self : Handle) (s : WholeBus) (which : Nat) : Shared :=
  let parties := s.parties which
  ⟨⟨self.window s.file which, parties.consumer, parties.messages, parties.released,
    parties.cleared, parties.delivered⟩, parties.producers⟩

def put (self : Handle) (which : Nat) (t : Shared) (s : WholeBus) : WholeBus :=
  { s with
    file := self.storeWindow which t.bus.region s.file
    parties := Function.update s.parties which
      ⟨t.bus.consumer, t.bus.messages, t.bus.released, t.bus.cleared, t.bus.delivered,
        t.producers⟩ }

inductive Op where
  /-- an access of a producer to a region -/
  | access (which : Nat) (access : Access)
  | createSpan (request : Source.SpanRequest)
  /-- the next step of `consume_messages` -/
  | consume

/-- `read_region` on one region after the other. -/
def consume (self : Handle) (s : WholeBus) : Option WholeBus :=
  match s.reading with
  | none => some { s with reading := some 0 }
  | some which =>
    if which < self.numRegions.toNat then
      ((s.shared self which).step self.regionEnd .consume).map fun t =>
        { s.put self which t with
          reading := some (if t.bus.consumer = .idle then which + 1 else which) }
    else some { s with reading := none }

/-- `create_span_context` -/
def createSpan (self : Handle) (request : Source.SpanRequest) (s : WholeBus) : WholeBus :=
  let regionId := Source.MpscBus.regionOf self.numRegions.toNat request.effective
  let (context, ctrs) := Source.MpscBus.createSpanContext self.numRegions.toNat
    (self.spanPrngCtrs s.file) request
  { s with
    file := self.storeSpanPrngCtr regionId (ctrs regionId) s.file
    spans := s.spans ++ [context] }

def step (self : Handle) (op : Op) (s : WholeBus) : Option WholeBus :=
  match op with
  | .access which access =>
    if which < self.numRegions.toNat ∧ access.OfProducer then
      ((s.shared self which).step self.regionEnd access).map fun t => s.put self which t
    else none
  | .createSpan request => some (s.createSpan self request)
  | .consume => s.consume self

abbrev run (self : Handle) : List Op → WholeBus → Option WholeBus := Runs.run (step self)

/-- The access to a region that a step is, if it is one. -/
def seen (self : Handle) (which : Nat) (op : Op) (s : WholeBus) : Option Access :=
  match op with
  | .access regionId access =>
    if regionId = which ∧ access.OfProducer then some access else none
  | .createSpan _ => none
  | .consume => if s.reading = some which ∧ which < self.numRegions.toNat then some .consume
    else none

/-- The accesses to a region in a run. -/
abbrev accesses (self : Handle) (which : Nat) : List Op → WholeBus → List Access :=
  Runs.trace (step self) (seen self which)

/-- What a step asks of `create_span_context`. -/
def Op.request : Op → Option Source.SpanRequest
  | .createSpan request => some request
  | _ => none

end WholeBus

/-! ## Confined regions -/

def Consumer.infos : Consumer → List Info
  | .idle | .loaded _ => []
  | .scanning _ _ infos | .gathered _ _ infos | .marking _ _ infos => infos
  | .clearing _ _ info infos => info :: infos

/-- Header and content lie in the data area. -/
def Info.Inside (regionEnd : Nat) (i : Info) : Prop :=
  i.head + 4 ≤ regionEnd ∧ i.content + i.allocSize ≤ regionEnd

/-- Nothing is stored outside of the data area, nor will be. -/
structure Bus.Confined (regionEnd : Nat) (b : Bus) : Prop where
  hands : b.Hands regionEnd
  infos : ∀ i ∈ b.consumer.infos, i.Inside regionEnd
  outside : ∀ x, regionEnd ≤ x → b.region.data x = 0xfe

structure Shared.Confined (regionEnd : Nat) (s : Shared) : Prop where
  bus : s.bus.Confined regionEnd
  producers : ∀ p, (s.producers p).Hands regionEnd

section Confined

variable {regionEnd : Nat}

theorem Hand.word_inside {p : Nat} (h : Hand regionEnd p) (hE : regionEnd % 4 = 0) :
    p + 4 ≤ regionEnd := by
  have := h.1
  have := h.2
  omega

variable {b b' : Bus}

theorem Bus.Confined.storeHead (h : b.Confined regionEnd) (hE : regionEnd % 4 = 0) {i : Nat}
    (hb : b.storeHead i = some b') : b'.Confined regionEnd := by
  have hands := h.hands.storeHead hb
  obtain ⟨m, hm, -, rfl⟩ := Bus.storeHead_cases hb
  have hword := (h.hands.messages m (List.mem_of_getElem? hm)).ctrl.word_inside hE
  refine ⟨hands, h.infos, fun x hx => ?_⟩
  rw [← h.outside x hx]
  exact storeWord_outside _ _ (by omega)

theorem Bus.Confined.write (h : b.Confined regionEnd) {i o : Nat} {value : UInt8}
    (hb : b.write i o value = some b') : b'.Confined regionEnd := by
  have hands := h.hands.write hb
  obtain ⟨m, hm, -, ho, rfl⟩ := Bus.write_cases hb
  have hpay := (h.hands.messages m (List.mem_of_getElem? hm)).payload_le
  refine ⟨hands, h.infos, fun x hx => ?_⟩
  rw [← h.outside x hx]
  exact Function.update_of_ne (by omega) _ _

theorem Bus.Confined.commit (h : b.Confined regionEnd) (hE : regionEnd % 4 = 0) {i : Nat}
    (hb : b.commit i = some b') : b'.Confined regionEnd := by
  have hands := h.hands.commit hb
  obtain ⟨m, hm, -, rfl⟩ := Bus.commit_cases hb
  have hword := (h.hands.messages m (List.mem_of_getElem? hm)).ctrl.word_inside hE
  refine ⟨hands, h.infos, fun x hx => ?_⟩
  rw [← h.outside x hx]
  exact storeWord_outside _ _ (by omega)

theorem Bus.Confined.reserve (h : b.Confined regionEnd) (hE : regionEnd % 4 = 0)
    (hroom : regionEnd + 2 ^ 29 < 2 ^ 32) {readHand n : Nat} (hn : n ≤ maxMessageSize)
    (hr : Hand regionEnd readHand) (hb : b.reserve regionEnd readHand n = some b') :
    b'.Confined regionEnd := by
  have hands := h.hands.reserve hE hroom hn hr hb
  obtain ⟨_, _, _, rfl⟩ := Bus.reserve_cases hb
  exact ⟨hands, h.infos, h.outside⟩

/-- What the consumer takes down of a message has passed the check of `subspan`. -/
theorem Bus.Confined.scan (h : b.Confined regionEnd) (hE : regionEnd % 4 = 0)
    {originalReadPos readPos : Nat} {infos : List Info}
    (hc : b.consumer = .scanning originalReadPos readPos infos)
    (hb : b.scan regionEnd originalReadPos readPos infos = some b') :
    (∀ i ∈ b'.consumer.infos, i.Inside regionEnd) ∧ b'.region = b.region := by
  have hinfos := h.infos
  have hpos := h.hands.consumer
  rw [hc] at hinfos hpos
  simp only [Bus.scan] at hb
  split at hb
  · cases hb
    exact ⟨hinfos, rfl⟩
  · split at hb
    case isFalse => cases hb
    case isTrue hin =>
      cases hb
      refine ⟨fun i hi => ?_, rfl⟩
      rcases List.mem_append.mp hi with hi | hi
      · exact hinfos i hi
      · rw [List.mem_singleton.mp hi]
        exact ⟨hpos.2.word_inside hE, hin⟩

theorem Bus.Confined.consume (h : b.Confined regionEnd) (hE : regionEnd % 4 = 0)
    (hroom : regionEnd + 2 ^ 29 < 2 ^ 32) (hb : b.consume regionEnd = some b') :
    b'.Confined regionEnd := by
  have hands := h.hands.consume hE hroom hb
  have hinfos := h.infos
  suffices hrest : (∀ i ∈ b'.consumer.infos, i.Inside regionEnd) ∧
      ∀ x, regionEnd ≤ x → b'.region.data x = b.region.data x from
    ⟨hands, hrest.1, fun x hx => (hrest.2 x hx).trans (h.outside x hx)⟩
  unfold Bus.consume at hb
  split at hb <;> rename_i hc <;> rw [hc] at hinfos
  case h_1 =>
    cases hb
    exact ⟨hinfos, fun _ _ => rfl⟩
  case h_2 =>
    split at hb <;> cases hb <;> exact ⟨hinfos, fun _ _ => rfl⟩
  case h_3 =>
    split at hb
    · obtain ⟨hin, hregion⟩ := h.scan hE hc hb
      exact ⟨hin, fun _ _ => by rw [hregion]⟩
    · cases hb
      exact ⟨hinfos, fun _ _ => rfl⟩
  case h_4 =>
    split at hb
    · split at hb <;> cases hb <;> exact ⟨nofun, fun _ _ => rfl⟩
    · cases hb
      exact ⟨hinfos, fun _ _ => rfl⟩
  case h_5 =>
    cases hb
    exact ⟨hinfos, fun _ _ => rfl⟩
  case h_6 info infos =>
    cases hb
    have hin := hinfos info List.mem_cons_self
    exact ⟨hinfos, fun x hx => storeWord_outside _ _ (by have := hin.1; omega)⟩
  case h_7 info infos =>
    cases hb
    have hin := hinfos info List.mem_cons_self
    exact ⟨fun i hi => hinfos i (List.mem_cons_of_mem _ hi),
      fun x hx => fill_outside _ _ (by have := hin.2; omega)⟩

namespace Shared

variable {s s' : Shared}

theorem init_confined (hpos : 0 < regionEnd) : Shared.init.Confined regionEnd :=
  ⟨⟨(init_hands hpos).bus, nofun, fun _ _ => rfl⟩, fun _ => trivial⟩

/-- Every access stays inside of its region, however old the read hand of its producer is. -/
theorem Confined.step (hE : regionEnd % 4 = 0) (hroom : regionEnd + 2 ^ 29 < 2 ^ 32)
    {access : Access} (h : s.Confined regionEnd) (hs : s.step regionEnd access = some s') :
    s'.Confined regionEnd := by
  have hands : s.Hands regionEnd := ⟨h.bus.hands, h.producers⟩
  have hproducers := (hands.step hE hroom hs).producers
  refine ⟨?_, hproducers⟩
  cases access with
  | loadRead p n =>
    rcases loadRead_cases hs with rfl | ⟨-, rfl⟩ <;> exact h.bus
  | loadAlloc p =>
    obtain ⟨n, readHand, -, rfl⟩ := loadAlloc_cases hs
    exact h.bus
  | exchange p spurious =>
    obtain ⟨n, readHand, allocHand, hp, hs⟩ := exchange_cases hs
    have hprod := h.producers p
    rw [hp] at hprod
    rcases hs with rfl | ⟨-, -, -, bus, hb, rfl⟩ | rfl
    · exact h.bus
    · exact h.bus.reserve hE hroom hprod.1 hprod.2.1 hb
    · exact h.bus
  | storeHead p =>
    obtain ⟨i, bus, hb, rfl⟩ := storeHead_cases hs
    exact h.bus.storeHead hE hb
  | write i o value =>
    obtain ⟨bus, hb, rfl⟩ := Option.map_eq_some_iff.mp hs
    exact h.bus.write hb
  | commit i =>
    obtain ⟨bus, hb, rfl⟩ := Option.map_eq_some_iff.mp hs
    exact h.bus.commit hE hb
  | consume =>
    obtain ⟨bus, hb, rfl⟩ := Option.map_eq_some_iff.mp hs
    exact h.bus.consume hE hroom hb

end Shared

end Confined

/-! ## Stores to one region -/

namespace Handle

variable {self : Handle} {file file' : File} {which other : Nat}

/-- A region of a bus has room for its control block. -/
def Roomy (self : Handle) : Prop := regionCtrlOverhead ≤ self.regionSize.toNat

theorem Roomy.regionSize_eq (h : self.Roomy) :
    self.regionSize.toNat = regionCtrlOverhead + self.regionEnd := by
  unfold Roomy at h
  unfold regionEnd
  omega

/-- Regions lie one behind the other. -/
theorem regionAddress_apart (self : Handle) (hne : which ≠ other) :
    self.regionAddress which + self.regionSize.toNat ≤ self.regionAddress other ∨
      self.regionAddress other + self.regionSize.toNat ≤ self.regionAddress which := by
  have hstep {a b : Nat} (hab : a < b) :
      a * self.regionSize.toNat + self.regionSize.toNat ≤ b * self.regionSize.toNat := by
    rw [← Nat.succ_mul]
    exact Nat.mul_le_mul_right _ hab
  unfold regionAddress
  rcases Nat.lt_or_gt_of_ne hne with hlt | hlt
  · have := hstep hlt
    omega
  · have := hstep hlt
    omega

theorem regionAddress_le (self : Handle) {numRegions : Nat} (h : which < numRegions) :
    self.regionAddress which + self.regionSize.toNat ≤
      headAreaSize + numRegions * self.regionSize.toNat := by
  have hmul : (which + 1) * self.regionSize.toNat ≤ numRegions * self.regionSize.toNat :=
    Nat.mul_le_mul_right _ h
  rw [Nat.succ_mul] at hmul
  unfold regionAddress
  omega

/-- The bytes that a region is read from. -/
theorem window_congr
    (hctrl : ∀ x < 8, file'.byte (self.regionAddress which + x) =
      file.byte (self.regionAddress which + x))
    (hdata : ∀ x < self.regionEnd,
      file'.byte (self.regionAddress which + regionCtrlOverhead + x) =
        file.byte (self.regionAddress which + regionCtrlOverhead + x)) :
    self.window file' which = self.window file which := by
  have hread := loadWord_congr fun o (ho : o < 4) => hctrl o (by omega)
  have halloc : loadWord file'.byte (self.regionAddress which + 4) =
      loadWord file.byte (self.regionAddress which + 4) := loadWord_congr fun o ho => by
    simpa only [Nat.add_assoc] using hctrl (4 + o) (by omega)
  have hall : (self.window file' which).data = (self.window file which).data := by
    funext x
    simp only [window, region]
    split_ifs with hx
    · exact hdata x hx
    · rfl
  simp only [window, region, hread, halloc] at hall ⊢
  rw [hall]

/-- What a store to a region leaves alone. -/
theorem storeWindow_byte {region : Region} {x : Nat}
    (hctrl : ¬(self.regionAddress which ≤ x ∧ x < self.regionAddress which + 8))
    (hdata : ¬(self.regionAddress which + regionCtrlOverhead ≤ x ∧
      x < self.regionAddress which + regionCtrlOverhead + self.regionEnd)) :
    (self.storeWindow which region file).byte x = file.byte x := by
  unfold storeWindow
  rw [File.byte_write_of_not_mem (by rwa [slice_length]),
    File.byte_write_of_not_mem (by rw [wordBytes_length]; omega),
    File.byte_write_of_not_mem (by rw [wordBytes_length]; omega)]

theorem storeWindow_size (hself : self.Roomy) {region : Region}
    (h : self.regionAddress which + self.regionSize.toNat ≤ file.size) :
    (self.storeWindow which region file).size = file.size := by
  have := hself.regionSize_eq
  unfold regionCtrlOverhead at this
  simp only [storeWindow, File.size_write, wordBytes_length, slice_length, regionCtrlOverhead]
  omega

/-- What has been stored is read. -/
theorem window_storeWindow {region : Region} (hread : region.readPtr < 2 ^ 32)
    (halloc : region.allocPtr < 2 ^ 32)
    (houtside : ∀ x, self.regionEnd ≤ x → region.data x = 0xfe) :
    self.window (self.storeWindow which region file) which = region := by
  have hdata : (self.window (self.storeWindow which region file) which).data = region.data := by
    funext x
    simp only [window, Handle.region]
    split_ifs with hx
    · exact (byte_write_slice hx).trans (by rw [Nat.zero_add])
    · exact (houtside x (Nat.le_of_not_lt hx)).symm
  have hword : loadWord (self.storeWindow which region file).byte (self.regionAddress which) =
      region.readPtr := by
    rw [storeWindow, loadWord_write_of_disjoint (by unfold regionCtrlOverhead; omega),
      loadWord_write_of_disjoint (by omega), loadWord_write hread]
  have hword' : loadWord (self.storeWindow which region file).byte
      (self.regionAddress which + 4) = region.allocPtr := by
    rw [storeWindow, loadWord_write_of_disjoint (by unfold regionCtrlOverhead; omega),
      loadWord_write halloc]
  simp only [window, Handle.region, hword, hword'] at hdata ⊢
  rw [hdata]

/-- The other regions are read as before. -/
theorem window_storeWindow_of_ne (hself : self.Roomy) {region : Region} (hne : which ≠ other) :
    self.window (self.storeWindow which region file) other = self.window file other := by
  have hsize := hself.regionSize_eq
  have hapart := regionAddress_apart self hne
  unfold regionCtrlOverhead at hsize
  refine window_congr (fun x hx => ?_) (fun x hx => ?_)
  · exact storeWindow_byte (by omega) (by unfold regionCtrlOverhead; omega)
  · exact storeWindow_byte (by unfold regionCtrlOverhead; omega)
      (by unfold regionCtrlOverhead; omega)

/-- And so are all counters. -/
theorem spanPrngCtr_storeWindow (hself : self.Roomy) {region : Region} :
    self.spanPrngCtr (self.storeWindow which region file) other = self.spanPrngCtr file other := by
  have hsize := hself.regionSize_eq
  unfold regionCtrlOverhead at hsize
  have hbyte : ∀ x, 8 ≤ x → x < 16 →
      (self.storeWindow which region file).byte (self.regionAddress other + x) =
        file.byte (self.regionAddress other + x) := by
    intro x hx hx'
    by_cases hne : which = other
    · subst hne
      exact storeWindow_byte (by omega) (by unfold regionCtrlOverhead; omega)
    · have hapart := regionAddress_apart self hne
      exact storeWindow_byte (by omega) (by unfold regionCtrlOverhead; omega)
  have hlow : loadWord (self.storeWindow which region file).byte (self.regionAddress other + 8) =
      loadWord file.byte (self.regionAddress other + 8) := loadWord_congr fun o ho => by
    simpa only [Nat.add_assoc] using hbyte (8 + o) (by omega) (by omega)
  have hhigh : loadWord (self.storeWindow which region file).byte
      (self.regionAddress other + 12) = loadWord file.byte (self.regionAddress other + 12) :=
    loadWord_congr fun o ho => by
      simpa only [Nat.add_assoc] using hbyte (12 + o) (by omega) (by omega)
  rw [spanPrngCtr, spanPrngCtr, hlow, hhigh]

/-! ## Stores to one counter -/

variable {ctr : Source.U64}

theorem storeSpanPrngCtr_byte {x : Nat}
    (h : ¬(self.regionAddress which + 8 ≤ x ∧ x < self.regionAddress which + 16)) :
    (self.storeSpanPrngCtr which ctr file).byte x = file.byte x := by
  unfold storeSpanPrngCtr
  rw [File.byte_write_of_not_mem (by rw [wordBytes_length]; omega),
    File.byte_write_of_not_mem (by rw [wordBytes_length]; omega)]

theorem storeSpanPrngCtr_size (hself : self.Roomy)
    (h : self.regionAddress which + self.regionSize.toNat ≤ file.size) :
    (self.storeSpanPrngCtr which ctr file).size = file.size := by
  unfold Roomy regionCtrlOverhead at hself
  simp only [storeSpanPrngCtr, File.size_write, wordBytes_length]
  omega

theorem spanPrngCtr_store :
    self.spanPrngCtr (self.storeSpanPrngCtr which ctr file) which = ctr := by
  have hlt := ctr.isLt
  have hlow : loadWord (self.storeSpanPrngCtr which ctr file).byte
      (self.regionAddress which + 8) = ctr.toNat % 2 ^ 32 := by
    rw [storeSpanPrngCtr, loadWord_write_of_disjoint (by omega),
      loadWord_write (Nat.mod_lt _ (by decide))]
  have hhigh : loadWord (self.storeSpanPrngCtr which ctr file).byte
      (self.regionAddress which + 12) = ctr.toNat / 2 ^ 32 := by
    rw [storeSpanPrngCtr, loadWord_write (by omega)]
  rw [spanPrngCtr, hlow, hhigh, Nat.mod_add_div, BitVec.ofNat_toNat, BitVec.setWidth_eq]

theorem spanPrngCtr_store_of_ne (hself : self.Roomy) (hne : which ≠ other) :
    self.spanPrngCtr (self.storeSpanPrngCtr which ctr file) other =
      self.spanPrngCtr file other := by
  have hapart := regionAddress_apart self hne
  unfold Roomy regionCtrlOverhead at hself
  have hword : ∀ p, self.regionAddress other + 8 ≤ p → p + 4 ≤ self.regionAddress other + 16 →
      loadWord (self.storeSpanPrngCtr which ctr file).byte p = loadWord file.byte p :=
    fun p hp hp' => loadWord_congr fun o ho => storeSpanPrngCtr_byte (by omega)
  rw [spanPrngCtr, spanPrngCtr, hword _ (by omega) (by omega), hword _ (by omega) (by omega)]

/-- Messages and hands of all regions stay as they are. -/
theorem window_storeSpanPrngCtr (hself : self.Roomy) :
    self.window (self.storeSpanPrngCtr which ctr file) other = self.window file other := by
  have hsize := hself.regionSize_eq
  unfold regionCtrlOverhead at hsize
  have hbyte : ∀ x, x < self.regionSize.toNat → x < 8 ∨ 16 ≤ x →
      (self.storeSpanPrngCtr which ctr file).byte (self.regionAddress other + x) =
        file.byte (self.regionAddress other + x) := by
    intro x hx hx'
    by_cases hne : which = other
    · subst hne
      exact storeSpanPrngCtr_byte (by omega)
    · have hapart := regionAddress_apart self hne
      exact storeSpanPrngCtr_byte (by omega)
  refine window_congr (fun x hx => hbyte x (by omega) (.inl hx)) (fun x hx => ?_)
  simpa only [Nat.add_assoc] using
    hbyte (regionCtrlOverhead + x) (by unfold regionCtrlOverhead; omega)
      (.inr (by unfold regionCtrlOverhead; omega))

end Handle

end Deeplog.Mpsc

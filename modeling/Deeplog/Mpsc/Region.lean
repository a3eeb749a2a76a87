import Mathlib.Tactic.SplitIfs
import Mathlib.Logic.Function.Basic
import Mathlib.Data.Nat.Bitwise
import Deeplog.Lib.Rounding

/-!
# One region of the mpsc bus

The shared memory of a region: the two hands of its control block, its data area as bytes,
the 32-bit words that serve as message headers, and the placement rule of
`mpsc_bus_handle::allocate`. Unsigned 32-bit sums are written with an explicit wrap.
-/

namespace Deeplog.Mpsc

abbrev Bytes := List UInt8

/-- Truncation to `std::uint32_t`. -/
def u32 (n : Nat) : Nat := n % 2 ^ 32

theorem u32_of_lt {n : Nat} (h : n < 2 ^ 32) : u32 n = n := Nat.mod_eq_of_lt h

/-- `cncr::round_up_p2` on 32-bit values. -/
def roundUpP2 (value p2 : Nat) : Nat := u32 (value + (p2 - 1)) / p2 * p2

/-- Where the sum does not wrap, it is as good as any other function that rounds up. -/
theorem roundUpP2_eq_round (r : Rounding.RoundUpP2) {value : UInt32} {k : Nat}
    (hfits : value.toNat + 2 ^ k ≤ 2 ^ 32) :
    roundUpP2 value.toNat (2 ^ k) = r.round value (2 ^ k) :=
  Rounding.RoundUpP2.round_congr .wrapping r hfits

def regionCtrlOverhead : Nat := 64
def headAreaSize : Nat := 4 * 1024
def minRegionSize : Nat := 4 * 1024
def blockSize : Nat := 4
def messageHeaderSize : Nat := blockSize
def messageLockFlag : Nat := 0x80000000
def messageConsumedFlag : Nat := 0x40000000
def messageFlagMask : Nat := messageLockFlag ||| messageConsumedFlag
def unusedBlockContent : Nat := 0xfefefefe
def maxMessageSize : Nat := 0x1fffffff
def consumeBatchSize : Nat := 64

/-- The payload size rounded up to whole blocks. -/
def allocSizeOf (payloadSize : Nat) : Nat := roundUpP2 payloadSize blockSize

theorem allocSizeOf_of_lt {n : Nat} (h : n + 3 < 2 ^ 32) :
    n ≤ allocSizeOf n ∧ allocSizeOf n < n + 4 ∧ allocSizeOf n % 4 = 0 := by
  simp only [allocSizeOf, roundUpP2, blockSize, u32_of_lt (show n + (4 - 1) < 2 ^ 32 from h)]
  omega

theorem allocSizeOf_spec {n : Nat} (h : n ≤ maxMessageSize) :
    n ≤ allocSizeOf n ∧ allocSizeOf n < n + 4 ∧ allocSizeOf n % 4 = 0 :=
  allocSizeOf_of_lt (by unfold maxMessageSize at h; omega)

theorem allocSizeOf_eq_round (r : Rounding.RoundUpP2) {payloadSize : UInt32}
    (h : payloadSize.toNat ≤ maxMessageSize) :
    allocSizeOf payloadSize.toNat = r.round payloadSize blockSize :=
  roundUpP2_eq_round r (k := 2) (by unfold maxMessageSize at h; omega)

/-! ## Words in the data area -/

/-- The 32-bit word at `p`, least significant byte first. -/
def loadWord (data : Nat → UInt8) (p : Nat) : Nat :=
  (data p).toNat + 256 * (data (p + 1)).toNat + 65536 * (data (p + 2)).toNat +
    16777216 * (data (p + 3)).toNat

def storeWord (data : Nat → UInt8) (p w : Nat) : Nat → UInt8 := fun x =>
  if x = p then .ofNat w
  else if x = p + 1 then .ofNat (w / 256)
  else if x = p + 2 then .ofNat (w / 65536)
  else if x = p + 3 then .ofNat (w / 16777216)
  else data x

/-- `std::memset` of `n` bytes from `p`. -/
def fill (data : Nat → UInt8) (p n : Nat) (value : UInt8) : Nat → UInt8 := fun x =>
  if p ≤ x ∧ x < p + n then value else data x

/-- The bytes of `block.subspan(p, n)`. -/
def slice (data : Nat → UInt8) (p n : Nat) : Bytes := (List.range n).map fun o => data (p + o)

theorem loadWord_congr {data data' : Nat → UInt8} {p : Nat}
    (h : ∀ o < 4, data (p + o) = data' (p + o)) : loadWord data p = loadWord data' p := by
  have h0 := h 0 (by omega); have h1 := h 1 (by omega)
  have h2 := h 2 (by omega); have h3 := h 3 (by omega)
  simp only [Nat.add_zero] at h0
  simp only [loadWord, h0, h1, h2, h3]

theorem loadWord_storeWord (data : Nat → UInt8) (p : Nat) {w : Nat} (h : w < 2 ^ 32) :
    loadWord (storeWord data p w) p = w := by
  simp [loadWord, storeWord]
  omega

theorem storeWord_outside (data : Nat → UInt8) {p x : Nat} (w : Nat) (h : x < p ∨ p + 4 ≤ x) :
    storeWord data p w x = data x := by
  unfold storeWord; split_ifs <;> first | omega | rfl

theorem fill_outside (data : Nat → UInt8) {p n x : Nat} (value : UInt8)
    (h : x < p ∨ p + n ≤ x) : fill data p n value x = data x := by
  unfold fill; split_ifs <;> first | omega | rfl

theorem fill_inside (data : Nat → UInt8) {p n x : Nat} (value : UInt8)
    (h : p ≤ x) (h' : x < p + n) : fill data p n value x = value := by
  simp [fill, h, h']

/-! ## Header words -/

/-- The test `(msgHead & message_lock_flag) != 0U`. -/
def Locked (w : Nat) : Prop := w &&& messageLockFlag ≠ 0

instance (w : Nat) : Decidable (Locked w) := inferInstanceAs (Decidable (_ ≠ _))

theorem testBit_lockFlag (i : Nat) : messageLockFlag.testBit i = decide (i = 31) := by
  rw [show messageLockFlag = 2 ^ 31 from rfl, Nat.testBit_two_pow]
  simp [eq_comm]

theorem testBit_consumedFlag (i : Nat) : messageConsumedFlag.testBit i = decide (i = 30) := by
  rw [show messageConsumedFlag = 2 ^ 30 from rfl, Nat.testBit_two_pow]
  simp [eq_comm]

theorem testBit_maxMessageSize (i : Nat) : maxMessageSize.testBit i = decide (i < 29) := by
  rw [show maxMessageSize = 2 ^ 29 - 1 from rfl, Nat.testBit_two_pow_sub_one]

theorem testBit_size {n : Nat} (h : n ≤ maxMessageSize) {i : Nat} (hi : 29 ≤ i) :
    n.testBit i = false := by
  apply Nat.testBit_lt_two_pow
  calc n < 2 ^ 29 := by unfold maxMessageSize at h; omega
    _ ≤ 2 ^ i := Nat.pow_le_pow_right (by omega) hi

theorem locked_iff_testBit (w : Nat) : Locked w ↔ w.testBit 31 = true := by
  unfold Locked
  rw [show messageLockFlag = 2 ^ 31 from rfl, Nat.and_two_pow]
  cases w.testBit 31 <;> simp

/-- The word that `allocate` stores: the payload size under the lock flag. -/
def lockedHead (size : Nat) : Nat := size ||| messageLockFlag
/-- The word that `read_region` leaves behind. -/
def consumedHead (size : Nat) : Nat := size ||| (messageLockFlag ||| messageConsumedFlag)

section Heads
variable {n : Nat} (h : n ≤ maxMessageSize)
include h

theorem not_locked_size : ¬ Locked n := by
  rw [locked_iff_testBit, testBit_size h (by omega)]; simp

theorem lockedHead_lt : lockedHead n < 2 ^ 32 :=
  Nat.or_lt_two_pow (by unfold maxMessageSize at h; omega) (by decide)

theorem consumedHead_lt : consumedHead n < 2 ^ 32 :=
  Nat.or_lt_two_pow (by unfold maxMessageSize at h; omega) (by decide)

/-- The commit of `do_sync_output` uncovers the size. -/
theorem lockedHead_and_max : lockedHead n &&& maxMessageSize = n := by
  apply Nat.eq_of_testBit_eq
  intro i
  rw [lockedHead, Nat.testBit_and, Nat.testBit_or, testBit_lockFlag, testBit_maxMessageSize]
  by_cases hi : i < 29
  · simp [hi, show i ≠ 31 by omega]
  · simp [hi, testBit_size h (show 29 ≤ i by omega)]

end Heads

theorem locked_lockedHead (n : Nat) : Locked (lockedHead n) := by
  rw [locked_iff_testBit, lockedHead, Nat.testBit_or, testBit_lockFlag]; simp

theorem locked_consumedHead (n : Nat) : Locked (consumedHead n) := by
  rw [locked_iff_testBit, consumedHead, Nat.testBit_or, Nat.testBit_or, testBit_lockFlag]; simp

theorem loadWord_filler (p : Nat) : loadWord (fun _ => 0xfe) p = unusedBlockContent := by
  have hb : (0xfe : UInt8).toNat = 254 := rfl
  simp only [loadWord, hb]; decide

theorem locked_filler (p : Nat) : Locked (loadWord (fun _ => 0xfe) p) := by
  rw [loadWord_filler]; decide

/-! ## The region and its placement rule -/

/-- The parts of a region that messages pass through: the hands of the control block and the
data area behind it. -/
structure Region where
  readPtr : Nat
  allocPtr : Nat
  data : Nat → UInt8

/-- The region as `mpsc_bus_handle::mpsc_bus` initialises it. -/
def Region.init : Region := ⟨0, 0, fun _ => 0xfe⟩

/-- One pass of the loop in `allocate` up to the `compare_exchange`: the payload position and
the next allocation hand, or `none` for `not_enough_space`. -/
def place (regionEnd readHand allocHand allocSize : Nat) : Option (Nat × Nat) :=
  let payloadPosition := u32 (allocHand + messageHeaderSize)
  let payloadEnd := u32 (payloadPosition + allocSize)
  let canWrap := readHand ≤ allocHand
  let bufferEnd := if canWrap then regionEnd else readHand
  if bufferEnd ≤ payloadEnd then
    if canWrap ∧ payloadEnd = regionEnd ∧ readHand ≠ 0 then some (payloadPosition, 0)
    else if canWrap ∧ allocSize < readHand then some (0, allocSize)
    else none
  else some (payloadPosition, payloadEnd)

/-- Where a reader takes the header to be: one block in front of the data area if the payload
had to go there. -/
def wrapStart (regionEnd readPos msgSize : Nat) : Nat :=
  if regionEnd < u32 (u32 (readPos + blockSize) + msgSize) then u32 (2 ^ 32 - blockSize)
  else readPos

/-- The position of a reader behind a message. -/
def stepOver (regionEnd start allocSize : Nat) : Nat :=
  let next := u32 (start + u32 (allocSize + blockSize))
  if next = regionEnd then 0 else next

/-- Where the payload of a message reserved at `p` lies. -/
def payloadPos (regionEnd p allocSize : Nat) : Nat :=
  if p + 4 + allocSize ≤ regionEnd then p + 4 else 0

/-- Where the message after the one reserved at `p` starts. -/
def nextPos (regionEnd p allocSize : Nat) : Nat :=
  if p + 4 + allocSize < regionEnd then p + 4 + allocSize
  else if p + 4 + allocSize = regionEnd then 0 else allocSize

/-- The part of the ring that a message reserved at `p` takes, an unused tail included. -/
def span (regionEnd p allocSize : Nat) : Nat :=
  if p + 4 + allocSize ≤ regionEnd then 4 + allocSize else regionEnd - p + allocSize

end Deeplog.Mpsc

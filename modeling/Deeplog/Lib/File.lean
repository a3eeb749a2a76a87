import Mathlib.Data.List.Basic

/-!
# Files of bytes

A file has a size and a byte at each position. A read delivers all of the requested bytes or
nothing. A write past the end extends the file, and what it leaves out reads as zeros. A write
determines what is read where it has been, and nothing elsewhere.
-/

structure File where
  size : Nat
  byte : Nat → UInt8
  zero_beyond : ∀ i, size ≤ i → byte i = 0

namespace File

/-- All bytes of an area, if the file has them. -/
def read (f : File) (pos len : Nat) : Option (List UInt8) :=
  if pos + len ≤ f.size then some ((List.range len).map fun i => f.byte (pos + i)) else none

def write (f : File) (pos : Nat) (bs : List UInt8) : File where
  size := max f.size (pos + bs.length)
  byte i := if pos ≤ i ∧ i < pos + bs.length then bs.getD (i - pos) 0 else f.byte i
  zero_beyond i hi := by
    rw [if_neg (by omega)]
    exact f.zero_beyond i (by omega)

/-- A file cut, or extended with zeros, to a size. -/
def truncate (f : File) (size : Nat) : File where
  size := size
  byte i := if i < size then f.byte i else 0
  zero_beyond _ hi := if_neg (by omega)

/-- A file of zeros. -/
def zeros (size : Nat) : File where
  size := size
  byte _ := 0
  zero_beyond _ _ := rfl

variable {f : File} {pos len p n : Nat} {bs x : List UInt8}

theorem read_eq_some_iff :
    f.read pos len = some x ↔
      pos + len ≤ f.size ∧ x.length = len ∧ ∀ i < len, x[i]? = some (f.byte (pos + i)) := by
  rw [read]
  split
  case isFalse hsize => simp [hsize]
  case isTrue hsize =>
    simp only [Option.some.injEq, hsize, true_and]
    constructor
    · rintro rfl
      exact ⟨by simp, fun i hi => by simp [hi]⟩
    · rintro ⟨hlen, hbyte⟩
      refine List.ext_getElem? fun i => ?_
      by_cases hi : i < len
      · simp [hi, hbyte i hi]
      · rw [List.getElem?_eq_none (by simp; omega), List.getElem?_eq_none (by omega)]

theorem read_zeros {size : Nat} (h : pos + len ≤ size) :
    (zeros size).read pos len = some (List.replicate len 0) :=
  read_eq_some_iff.mpr ⟨h, List.length_replicate, fun i hi => by simp [hi, zeros]⟩

/-- What has been written is read. -/
theorem read_write (f : File) (pos : Nat) (bs : List UInt8) :
    (f.write pos bs).read pos bs.length = some bs := by
  refine read_eq_some_iff.mpr ⟨Nat.le_max_right _ _, rfl, fun i hi => ?_⟩
  have hin : pos ≤ pos + i ∧ pos + i < pos + bs.length := by omega
  simp [write, hin, hi]

theorem byte_write_of_not_mem {i : Nat} (h : ¬(pos ≤ i ∧ i < pos + bs.length)) :
    (f.write pos bs).byte i = f.byte i :=
  if_neg h

theorem size_write (f : File) (pos : Nat) (bs : List UInt8) :
    (f.write pos bs).size = max f.size (pos + bs.length) := rfl

theorem size_le_write (f : File) (pos : Nat) (bs : List UInt8) : f.size ≤ (f.write pos bs).size :=
  Nat.le_max_left _ _

/-- A write leaves alone what is read elsewhere. -/
theorem read_write_of_disjoint (hread : f.read p n = some x)
    (hdisj : p + n ≤ pos ∨ pos + bs.length ≤ p) : (f.write pos bs).read p n = some x := by
  obtain ⟨hsize, hlen, hbyte⟩ := read_eq_some_iff.mp hread
  refine read_eq_some_iff.mpr
    ⟨Nat.le_trans hsize (size_le_write ..), hlen, fun i hi => ?_⟩
  rw [hbyte i hi, byte_write_of_not_mem (by omega)]

end File

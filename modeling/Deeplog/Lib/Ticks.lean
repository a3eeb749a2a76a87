import Mathlib.Data.BitVec

/-!
# Counts of ticks

Signed and unsigned numbers of 64 bits, as `std::chrono` computes with them: a sum or a difference
has the type that both operands convert to, which is unsigned if one of them is. Conversions and
unsigned results wrap around, signed results must not overflow. Whatever has been wrapped on the
way, a number that the final type can represent comes out exactly.
-/

namespace Ticks

/-- The representation of a count. -/
inductive Rep where
  | int64 | uint64
  deriving DecidableEq

/-- `std::common_type_t` -/
def Rep.common : Rep → Rep → Rep
  | int64, int64 => int64
  | _, _ => uint64

structure Count (rep : Rep) where
  bits : BitVec 64
  deriving DecidableEq

namespace Rep

def min : Rep → Int
  | int64 => -2 ^ 63
  | uint64 => 0

def max : Rep → Int
  | int64 => 2 ^ 63 - 1
  | uint64 => 2 ^ 64 - 1

end Rep

namespace Count

variable {r s : Rep}

def value : {rep : Rep} → Count rep → Int
  | .int64, c => c.bits.toInt
  | .uint64, c => c.bits.toNat

/-- `static_cast` of a count. -/
def cast (s : Rep) (c : Count r) : Count s := ⟨c.bits⟩

/-- The result of a computation, unless it is a signed overflow. -/
def result (rep : Rep) (exact : Int) (bits : BitVec 64) : Option (Count rep) :=
  if rep = .int64 ∧ ¬(rep.min ≤ exact ∧ exact ≤ rep.max) then none else some ⟨bits⟩

def add (a : Count r) (b : Count s) : Option (Count (r.common s)) :=
  let common := r.common s
  result common ((a.cast common).value + (b.cast common).value) (a.bits + b.bits)

def sub (a : Count r) (b : Count s) : Option (Count (r.common s)) :=
  let common := r.common s
  result common ((a.cast common).value - (b.cast common).value) (a.bits - b.bits)

/-- The count stands for the number, up to multiples of `2 ^ 64`. -/
def Stands (c : Count r) (n : Int) : Prop := c.bits = BitVec.ofInt 64 n

variable {a : Count r} {b : Count s} {m n : Int}

theorem value_mem (c : Count r) : r.min ≤ c.value ∧ c.value ≤ r.max := by
  cases r with
  | int64 =>
    have hlow := BitVec.le_toInt c.bits
    have hhigh := BitVec.toInt_lt (x := c.bits)
    simp only [value, Rep.min, Rep.max]
    omega
  | uint64 =>
    have hlt := c.bits.isLt
    simp only [value, Rep.min, Rep.max]
    omega

theorem stands_value (c : Count r) : c.Stands c.value := by
  cases r with
  | int64 => exact BitVec.ofInt_toInt.symm
  | uint64 =>
    rw [Stands, value, BitVec.ofInt_natCast]
    exact (BitVec.ofNat_toNat 64 c.bits).trans (BitVec.setWidth_eq c.bits) |>.symm

/-- A number that can be represented is what the count has for a value. -/
theorem Stands.value (h : a.Stands n) (hmin : r.min ≤ n) (hmax : n ≤ r.max) : a.value = n := by
  rw [Stands] at h
  cases r with
  | int64 =>
    rw [Count.value, h]
    simp only [Rep.min, Rep.max] at hmin hmax
    exact BitVec.toInt_ofInt_eq_self (by decide) (by omega) (by omega)
  | uint64 =>
    simp only [Rep.min, Rep.max] at hmin hmax
    rw [Count.value, h, BitVec.toNat_ofInt]
    omega

theorem Stands.cast (h : a.Stands n) (s : Rep) : (a.cast s).Stands n := h

theorem ext_of_stands {c d : Count r} (hc : c.Stands n) (hd : d.Stands n) : c = d := by
  cases c
  cases d
  exact congrArg Count.mk (hc.trans hd.symm)

theorem result_uint64 (exact : Int) (bits : BitVec 64) :
    result .uint64 exact bits = some ⟨bits⟩ := by
  simp [result]

theorem result_int64 {exact : Int} (bits : BitVec 64) (hmin : Rep.int64.min ≤ exact)
    (hmax : exact ≤ Rep.int64.max) : result .int64 exact bits = some ⟨bits⟩ := by
  rw [result, if_neg fun h => h.2 ⟨hmin, hmax⟩]

/-- A result that is unsigned, or is exact for signed operands, stands for the exact one. -/
theorem add_stands (ha : a.Stands m) (hb : b.Stands n)
    (hsigned : r.common s = .int64 → a.value = m ∧ b.value = n ∧
      Rep.int64.min ≤ m + n ∧ m + n ≤ Rep.int64.max) :
    ∃ c, a.add b = some c ∧ c.Stands (m + n) := by
  have hbits : a.bits + b.bits = BitVec.ofInt 64 (m + n) := by
    rw [BitVec.ofInt_add, ha, hb]
  refine ⟨⟨a.bits + b.bits⟩, ?_, hbits⟩
  cases r with
  | int64 =>
    cases s with
    | int64 =>
      obtain ⟨hm, hn, hmin, hmax⟩ := hsigned rfl
      rw [← hm, ← hn] at hmin hmax
      exact result_int64 _ hmin hmax
    | uint64 => exact result_uint64 _ _
  | uint64 => exact result_uint64 _ _

theorem sub_stands (ha : a.Stands m) (hb : b.Stands n)
    (hsigned : r.common s = .int64 → a.value = m ∧ b.value = n ∧
      Rep.int64.min ≤ m - n ∧ m - n ≤ Rep.int64.max) :
    ∃ c, a.sub b = some c ∧ c.Stands (m - n) := by
  have hbits : a.bits - b.bits = BitVec.ofInt 64 (m - n) := by
    rw [Int.sub_eq_add_neg, BitVec.ofInt_add, BitVec.ofInt_neg, ← BitVec.sub_eq_add_neg, ha, hb]
  refine ⟨⟨a.bits - b.bits⟩, ?_, hbits⟩
  cases r with
  | int64 =>
    cases s with
    | int64 =>
      obtain ⟨hm, hn, hmin, hmax⟩ := hsigned rfl
      rw [← hm, ← hn] at hmin hmax
      exact result_int64 _ hmin hmax
    | uint64 => exact result_uint64 _ _
  | uint64 => exact result_uint64 _ _

/-- A signed sum in the range of the type is exact. -/
theorem add_exact {a b : Count .int64} (hmin : Rep.int64.min ≤ a.value + b.value)
    (hmax : a.value + b.value ≤ Rep.int64.max) :
    ∃ c : Count .int64, a.add b = some c ∧ c.value = a.value + b.value := by
  obtain ⟨c, hc, hstands⟩ := add_stands a.stands_value b.stands_value
    fun _ => ⟨rfl, rfl, hmin, hmax⟩
  exact ⟨c, hc, hstands.value hmin hmax⟩

theorem sub_exact {a b : Count .int64} (hmin : Rep.int64.min ≤ a.value - b.value)
    (hmax : a.value - b.value ≤ Rep.int64.max) :
    ∃ c : Count .int64, a.sub b = some c ∧ c.value = a.value - b.value := by
  obtain ⟨c, hc, hstands⟩ := sub_stands a.stands_value b.stands_value
    fun _ => ⟨rfl, rfl, hmin, hmax⟩
  exact ⟨c, hc, hstands.value hmin hmax⟩

end Count

end Ticks

import Mathlib.Algebra.Ring.Nat
import Mathlib.Order.Bounds.Basic

/-!
# Rounding up

Sizes of 32 bits are rounded up to multiples of a power of two. What comes out is the least
multiple that is not below the size; where that has more than 32 bits, it depends on the width of
the sum, and is left open.
-/

namespace Rounding

/-- The least multiple of `p2` that is not below the value. -/
def IsRoundedUp (value p2 rounded : Nat) : Prop := IsLeast {m | p2 ∣ m ∧ value ≤ m} rounded

variable {value p2 rounded k : Nat}

theorem isRoundedUp_div (hpos : 0 < p2) :
    IsRoundedUp value p2 ((value + (p2 - 1)) / p2 * p2) := by
  have hmod := Nat.div_add_mod (value + (p2 - 1)) p2
  have hlt := Nat.mod_lt (value + (p2 - 1)) hpos
  rw [Nat.mul_comm] at hmod
  refine ⟨⟨Nat.dvd_mul_left p2 _, by omega⟩, ?_⟩
  rintro m ⟨⟨q, rfl⟩, hle⟩
  rw [Nat.mul_comm p2 q]
  refine Nat.mul_le_mul_right p2 (Nat.le_of_lt_succ ?_)
  rw [Nat.div_lt_iff_lt_mul hpos, Nat.succ_mul, Nat.mul_comm q p2]
  omega

theorem IsRoundedUp.lt_add (h : IsRoundedUp value p2 rounded) (hpos : 0 < p2) :
    rounded < value + p2 := by
  have hle := h.2 (isRoundedUp_div hpos).1
  have hdiv := Nat.div_mul_le_self (value + (p2 - 1)) p2
  omega

/-- A function that rounds up, whatever it makes of what does not fit. -/
structure RoundUpP2 where
  round : UInt32 → Nat → Nat
  round_eq : ∀ {value : UInt32} {k rounded : Nat}, IsRoundedUp value.toNat (2 ^ k) rounded →
    rounded < 2 ^ 32 → round value (2 ^ k) = rounded

/-- The function that gives the least multiple in any case. -/
def RoundUpP2.exact : RoundUpP2 where
  round value p2 := (value.toNat + (p2 - 1)) / p2 * p2
  round_eq h _ := (isRoundedUp_div (Nat.two_pow_pos _)).unique h

/-- The function whose sum has 32 bits. -/
def RoundUpP2.wrapping : RoundUpP2 where
  round value p2 := (value.toNat + (p2 - 1)) % 2 ^ 32 / p2 * p2
  round_eq {value k rounded} h hlt := by
    have hpos : 0 < 2 ^ k := Nat.two_pow_pos k
    obtain rfl : rounded = (value.toNat + (2 ^ k - 1)) / 2 ^ k * 2 ^ k :=
      h.unique (isRoundedUp_div hpos)
    by_cases hk : k ≤ 32
    · -- the wrapped sum has as many whole multiples less as there are in `2 ^ 32`
      have hsum : value.toNat + (2 ^ k - 1) < 2 ^ 32 := by
        by_contra hge
        have hdvd : 2 ^ 32 / 2 ^ k * 2 ^ k = 2 ^ 32 :=
          Nat.div_mul_cancel (Nat.pow_dvd_pow 2 hk)
        have hmono : 2 ^ 32 / 2 ^ k * 2 ^ k ≤ (value.toNat + (2 ^ k - 1)) / 2 ^ k * 2 ^ k :=
          Nat.mul_le_mul_right _ (Nat.div_le_div_right (Nat.le_of_not_lt hge))
        omega
      rw [Nat.mod_eq_of_lt hsum]
    · -- such a power is too large, so that the value is zero
      have hlarge : 2 ^ 32 < 2 ^ k := Nat.pow_lt_pow_right (by decide) (Nat.lt_of_not_le hk)
      have hzero : value.toNat = 0 := by
        by_contra hne
        have hone : 1 ≤ (value.toNat + (2 ^ k - 1)) / 2 ^ k :=
          (Nat.one_le_div_iff hpos).mpr (by omega)
        have := Nat.mul_le_mul_right (2 ^ k) hone
        omega
      have hmod := Nat.mod_lt (2 ^ k - 1) (Nat.two_pow_pos 32)
      rw [hzero, Nat.zero_add, Nat.div_eq_of_lt (by omega), Nat.div_eq_of_lt (by omega)]

/-- Where the multiple cannot be too large, the result is the least one. -/
theorem RoundUpP2.isRoundedUp (r : RoundUpP2) {value : UInt32}
    (hfits : value.toNat + 2 ^ k ≤ 2 ^ 32) :
    IsRoundedUp value.toNat (2 ^ k) (r.round value (2 ^ k)) := by
  have h : IsRoundedUp value.toNat (2 ^ k) ((value.toNat + (2 ^ k - 1)) / 2 ^ k * 2 ^ k) :=
    isRoundedUp_div (Nat.two_pow_pos k)
  have hlt := h.lt_add (Nat.two_pow_pos k)
  rwa [r.round_eq h (by omega)]

/-- There all functions agree. -/
theorem RoundUpP2.round_congr (r r' : RoundUpP2) {value : UInt32}
    (hfits : value.toNat + 2 ^ k ≤ 2 ^ 32) : r.round value (2 ^ k) = r'.round value (2 ^ k) :=
  (r.isRoundedUp hfits).unique (r'.isRoundedUp hfits)

end Rounding

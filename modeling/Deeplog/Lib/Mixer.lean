import Mathlib.Tactic.Ring
import Mathlib.Data.Nat.Basic

/-!
# Steps of a mixing function

Which steps of a multiply-shift-xor mixer lose nothing, over words of any width: products with
an invertible factor, sums and exclusive ors with a constant, and the exclusive or with a right
shift. A left shift keeps exactly the low bits.
-/

namespace Mixer

variable {w : Nat} {x y c p q : BitVec w}

theorem mul_inj (h : p * q = 1#w) : x * p = y * p ↔ x = y := by
  refine ⟨fun heq => ?_, fun heq => heq ▸ rfl⟩
  calc x = x * p * q := by rw [BitVec.mul_assoc, h, BitVec.mul_one]
    _ = y * p * q := by rw [heq]
    _ = y := by rw [BitVec.mul_assoc, h, BitVec.mul_one]

theorem add_inj : x + c = y + c ↔ x = y := BitVec.add_left_inj ..

theorem xor_inj : c ^^^ x = c ^^^ y ↔ x = y := BitVec.xor_right_inj ..

/-- The bits of `x ^^^ (x >>> s)` give the bits of `x` from the top. -/
theorem xorShift_inj {s : Nat} (hs : 0 < s) : x ^^^ (x >>> s) = y ^^^ (y >>> s) ↔ x = y := by
  refine ⟨fun heq => ?_, fun heq => heq ▸ rfl⟩
  have hbit : ∀ n i, w - i ≤ n → x.getLsbD i = y.getLsbD i := by
    intro n
    induction n with
    | zero =>
      intro i hi
      rw [BitVec.getLsbD_of_ge x i (by omega), BitVec.getLsbD_of_ge y i (by omega)]
    | succ n ih =>
      intro i hi
      by_cases hw : w ≤ i
      · rw [BitVec.getLsbD_of_ge x i hw, BitVec.getLsbD_of_ge y i hw]
      · have hnext := ih (s + i) (by omega)
        have hi' := congrArg (fun z => z.getLsbD i) heq
        simp only [BitVec.getLsbD_xor, BitVec.getLsbD_ushiftRight, hnext] at hi'
        simpa using hi'
  exact BitVec.eq_of_getLsbD_eq fun i _ => hbit w i (by omega)

theorem setWidth_shiftLeft {k : Nat} (hk : k ≤ w) (s : Nat) :
    (x <<< s).setWidth k = x.setWidth k <<< s := by
  apply BitVec.eq_of_getLsbD_eq
  intro i hi
  simp only [BitVec.getLsbD_setWidth, BitVec.getLsbD_shiftLeft, hi, decide_true, Bool.true_and]
  have hw : i < w := by omega
  by_cases his : i < s
  · simp [his]
  · simp [hw, show i - s < k by omega]

/-- A left shift keeps the bits that it does not push out. -/
theorem shiftLeft_inj {s k : Nat} (hk : k + s = w) :
    x <<< s = y <<< s ↔ x.setWidth k = y.setWidth k := by
  constructor
  · intro heq
    apply BitVec.eq_of_getLsbD_eq
    intro i hi
    have hbit := congrArg (fun z => z.getLsbD (i + s)) heq
    simp only [BitVec.getLsbD_shiftLeft, show i + s < w by omega, Nat.add_sub_cancel] at hbit
    simpa [hi] using hbit
  · intro heq
    apply BitVec.eq_of_getLsbD_eq
    intro i hi
    by_cases his : i < s
    · simp [BitVec.getLsbD_shiftLeft, his]
    · have hbit := congrArg (fun z => z.getLsbD (i - s)) heq
      simp only [BitVec.getLsbD_setWidth, show i - s < k by omega, decide_true, Bool.true_and]
        at hbit
      simp [BitVec.getLsbD_shiftLeft, his, hbit]

theorem setWidth_inj {k : Nat} : x.setWidth k = y.setWidth k ↔
    x.toNat % 2 ^ k = y.toNat % 2 ^ k := by
  rw [← BitVec.toNat_inj, BitVec.toNat_setWidth, BitVec.toNat_setWidth]

end Mixer

import Mathlib.Data.List.Basic

/-!
# Caches of a versioned value

A stored value carries a version, and so does each cached copy of it. A cache is refreshed only
when the stored version is above its own. It can be trusted as long as a copy of the current
version is a copy of the current value, which publishing a newer version keeps, and which
replacing the value of the current version keeps only where nobody has a copy of it.
-/

namespace Versioned

variable {C : Type} {version : C → Nat} {same : C → C → Prop} {stored next cache : C}

/-- The cached copy, or the stored value if it is newer. -/
def refresh (version : C → Nat) (stored cache : C) : C :=
  if version cache < version stored then stored else cache

/-- The cache is not ahead of the stored value, and has that value if it has its version. -/
def Fresh (version : C → Nat) (same : C → C → Prop) (stored cache : C) : Prop :=
  version cache ≤ version stored ∧ (version cache = version stored → same cache stored)

theorem Fresh.self (hrefl : ∀ c, same c c) (c : C) : Fresh version same c c :=
  ⟨Nat.le_refl _, fun _ => hrefl c⟩

theorem version_refresh (h : version cache ≤ version stored) :
    version (refresh version stored cache) = version stored := by
  rw [refresh]
  split
  · rfl
  · omega

theorem Fresh.refresh (hrefl : ∀ c, same c c) (h : Fresh version same stored cache) :
    same (refresh version stored cache) stored := by
  rw [Versioned.refresh]
  split
  case isTrue => exact hrefl _
  case isFalse hle => exact h.2 (by have := h.1; omega)

/-- A newer version makes no cache untrustworthy. -/
theorem Fresh.publish (h : version cache ≤ version stored) (hnew : version stored < version next) :
    Fresh version same next cache :=
  ⟨by omega, fun heq => by omega⟩

/-- A replaced value has to be the one that is cached, if its version is. -/
theorem Fresh.replace (h : version cache ≤ version stored) (heq : version next = version stored)
    (hsame : version cache = version stored → same cache next) :
    Fresh version same next cache :=
  ⟨by omega, fun hcur => hsame (by omega)⟩

end Versioned

import Deeplog.Lib.Ticks

/-!
# The log clock

Records carry readings of a steady clock as unsigned nanoseconds. An epoch pairs a reading of the
system clock with one of the steady clock, and converts the readings to system time: for a reader
through `epoch_info::to_sys`, which subtracts unsigned counts and wraps around for every reading
before the epoch, and for the running process through `log_clock::to_sys`, which subtracts signed
ones. Both clocks count nanoseconds in 64 bits.
-/

namespace Deeplog.Source

open Ticks (Rep Count)

/-- `log_clock::epoch_info`, with the counts of both time points. -/
structure EpochInfo where
  systemReference : Count .int64
  steadyReference : Count .int64
  deriving DecidableEq

/-- `epoch_info::to_sys<Duration>`, where only the representation of the duration matters. -/
def EpochInfo.toSys (self : EpochInfo) (duration : Rep) (nanoseconds : UInt64) :
    Option (Count (duration.common .int64)) := do
  let sinceEpoch : Count .uint64 := ⟨nanoseconds.toBitVec⟩
  let internalSinceEpoch ← sinceEpoch.sub self.steadyReference
  let systemTime ← self.systemReference.add internalSinceEpoch
  pure (systemTime.cast (duration.common .int64))

namespace LogClock

variable {duration : Rep}

/-- `log_clock::to_sys`, with the epoch of the clock. -/
def toSys (epoch : EpochInfo) (t : Count duration) : Option (Count (duration.common .uint64)) := do
  let internalTime := t.cast .int64
  let internalSinceEpoch ← internalTime.sub epoch.steadyReference
  let systemTime ← epoch.systemReference.add internalSinceEpoch
  pure (systemTime.cast (duration.common .uint64))

/-- `log_clock::from_sys` -/
def fromSys (epoch : EpochInfo) (t : Count duration) :
    Option (Count (duration.common .uint64)) := do
  let systemSinceEpoch ← t.sub epoch.systemReference
  let internalTime ← epoch.steadyReference.add systemSinceEpoch
  pure (internalTime.cast (duration.common .uint64))

end LogClock

/-- The system time of a reading of the steady clock. -/
def EpochInfo.systemTime (epoch : EpochInfo) (nanoseconds : UInt64) : Int :=
  epoch.systemReference.value + (nanoseconds.toNat - epoch.steadyReference.value)

/-- A reading whose system time is one of the clock. -/
structure EpochInfo.Covers (epoch : EpochInfo) (nanoseconds : UInt64) : Prop where
  steady : nanoseconds.toNat < 2 ^ 63
  nonneg : 0 ≤ epoch.systemTime nanoseconds
  lt : epoch.systemTime nanoseconds < 2 ^ 63

instance (epoch : EpochInfo) (nanoseconds : UInt64) : Decidable (epoch.Covers nanoseconds) :=
  decidable_of_iff (nanoseconds.toNat < 2 ^ 63 ∧ 0 ≤ epoch.systemTime nanoseconds ∧
      epoch.systemTime nanoseconds < 2 ^ 63)
    ⟨fun h => ⟨h.1, h.2.1, h.2.2⟩, fun h => ⟨h.steady, h.nonneg, h.lt⟩⟩

/-- A reading as a time point of the log clock, in either representation. -/
def reading (duration : Rep) (nanoseconds : UInt64) : Count duration := ⟨nanoseconds.toBitVec⟩

section

variable {epoch : EpochInfo} {duration : Rep} {t u : UInt64}

theorem reading_stands (duration : Rep) (t : UInt64) :
    (reading duration t).Stands (t.toNat : Int) :=
  (Count.stands_value (reading .uint64 t)).cast duration

/-- Numbers of which nothing is lost in either representation. -/
theorem min_le_max (rep : Rep) {n : Int} (hnonneg : 0 ≤ n) (hlt : n < 2 ^ 63) :
    rep.min ≤ n ∧ n ≤ rep.max := by
  cases rep <;> simp only [Rep.min, Rep.max] <;> omega

theorem EpochInfo.Covers.value {c : Count duration} (h : epoch.Covers t)
    (hc : c.Stands (epoch.systemTime t)) : c.value = epoch.systemTime t := by
  obtain ⟨hmin, hmax⟩ := min_le_max duration h.nonneg h.lt
  exact hc.value hmin hmax

/-- The unsigned difference wraps around before the epoch, and the unsigned sum wraps back. -/
theorem EpochInfo.toSys_stands (epoch : EpochInfo) (duration : Rep) (t : UInt64) :
    ∃ c, epoch.toSys duration t = some c ∧ c.Stands (epoch.systemTime t) := by
  obtain ⟨d, hd, hdiff⟩ := Count.sub_stands (reading_stands .uint64 t)
    epoch.steadyReference.stands_value (by rintro ⟨⟩)
  obtain ⟨c, hc, hsum⟩ := Count.add_stands epoch.systemReference.stands_value hdiff (by rintro ⟨⟩)
  refine ⟨c.cast _, ?_, hsum.cast _⟩
  have hd' : Count.sub (⟨t.toBitVec⟩ : Count .uint64) epoch.steadyReference = some d := hd
  simp [EpochInfo.toSys, hd', hc]

/-- The signed difference and sum do not overflow. -/
theorem LogClock.toSys_stands (hS : 0 ≤ epoch.systemReference.value) (h : epoch.Covers t)
    (duration : Rep) :
    ∃ c, toSys epoch (reading duration t) = some c ∧ c.Stands (epoch.systemTime t) := by
  have hS' := epoch.systemReference.value_mem.2
  have hM' := epoch.steadyReference.value_mem.2
  have hsystem : epoch.systemTime t =
    epoch.systemReference.value + (t.toNat - epoch.steadyReference.value) := rfl
  have ht := h.steady
  have hnonneg := h.nonneg
  have hlt := h.lt
  simp only [Rep.max] at hS' hM'
  have hreading := (reading_stands duration t).cast .int64
  have hvalue : ((reading duration t).cast .int64).value = t.toNat := by
    obtain ⟨hmin, hmax⟩ := min_le_max .int64 (n := t.toNat) (by omega) (by omega)
    exact hreading.value hmin hmax
  have hbounds : Rep.int64.min ≤ t.toNat - epoch.steadyReference.value ∧
      t.toNat - epoch.steadyReference.value ≤ Rep.int64.max := by
    simp only [Rep.min, Rep.max]
    omega
  obtain ⟨d, hd, hdiff⟩ := Count.sub_stands hreading epoch.steadyReference.stands_value
    fun _ => ⟨hvalue, rfl, hbounds.1, hbounds.2⟩
  obtain ⟨hmin, hmax⟩ := min_le_max .int64 hnonneg hlt
  obtain ⟨c, hc, hsum⟩ := Count.add_stands epoch.systemReference.stands_value hdiff
    fun _ => ⟨rfl, hdiff.value hbounds.1 hbounds.2, hmin, hmax⟩
  refine ⟨c.cast _, ?_, hsum.cast _⟩
  simp [toSys, hd, hc]

theorem LogClock.fromSys_stands (t : UInt64) (duration : Rep) {y : Count (duration.common .uint64)}
    (hy : y.Stands (epoch.systemTime t)) :
    ∃ c, fromSys epoch y = some c ∧ c.Stands (t.toNat : Int) := by
  have hunsigned {s : Rep} : (duration.common .uint64).common s ≠ .int64 := by
    cases duration <;> rintro ⟨⟩
  have hunsigned' : Rep.int64.common ((duration.common .uint64).common .int64) ≠ .int64 := by
    cases duration <;> rintro ⟨⟩
  obtain ⟨d, hd, hdiff⟩ := Count.sub_stands hy epoch.systemReference.stands_value
    fun h => absurd h hunsigned
  obtain ⟨c, hc, hsum⟩ := Count.add_stands epoch.steadyReference.stands_value hdiff
    fun h => absurd h hunsigned'
  refine ⟨c.cast _, by simp [fromSys, hd, hc], ?_⟩
  have hback : epoch.steadyReference.value +
      (epoch.systemTime t - epoch.systemReference.value) = t.toNat := by
    rw [EpochInfo.systemTime]
    omega
  rw [hback] at hsum
  exact hsum.cast _

theorem EpochInfo.systemTime_lt (epoch : EpochInfo) (h : t < u) :
    epoch.systemTime t < epoch.systemTime u := by
  have hlt : t.toNat < u.toNat := UInt64.lt_iff_toNat_lt.mp h
  rw [EpochInfo.systemTime, EpochInfo.systemTime]
  omega

end

/-- Both converters give the system time of every reading that has one, `log_clock::from_sys` leads
back to the reading, and later readings have later system times. -/
theorem clock_conversions_exact (epoch : EpochInfo) (hS : 0 ≤ epoch.systemReference.value)
    (duration requested : Rep) :
    (∀ t, epoch.Covers t → ∃ x y, epoch.toSys requested t = some x ∧
      x.value = epoch.systemTime t ∧
      LogClock.toSys epoch (reading duration t) = some y ∧ y.value = epoch.systemTime t ∧
      LogClock.fromSys epoch y = some (reading _ t)) ∧
    ∀ t u, epoch.Covers t → epoch.Covers u → t < u →
      (∀ x y, epoch.toSys requested t = some x → epoch.toSys requested u = some y →
        x.value < y.value) ∧
      ∀ x y, LogClock.toSys epoch (reading duration t) = some x →
        LogClock.toSys epoch (reading duration u) = some y → x.value < y.value := by
  constructor
  · intro t ht
    obtain ⟨x, hx, hxt⟩ := epoch.toSys_stands requested t
    obtain ⟨y, hy, hyt⟩ := LogClock.toSys_stands hS ht duration
    obtain ⟨z, hz, hzt⟩ := LogClock.fromSys_stands t duration hyt
    refine ⟨x, y, hx, ht.value hxt, hy, ht.value hyt, ?_⟩
    rw [hz, Count.ext_of_stands hzt (reading_stands _ t)]
  · intro t u ht hu htu
    constructor
    · intro x y hx hy
      obtain ⟨x', hx', hxt⟩ := epoch.toSys_stands requested t
      obtain ⟨y', hy', hyu⟩ := epoch.toSys_stands requested u
      obtain rfl : x' = x := Option.some_injective _ (hx'.symm.trans hx)
      obtain rfl : y' = y := Option.some_injective _ (hy'.symm.trans hy)
      rw [ht.value hxt, hu.value hyu]
      exact epoch.systemTime_lt htu
    · intro x y hx hy
      obtain ⟨x', hx', hxt⟩ := LogClock.toSys_stands hS ht duration
      obtain ⟨y', hy', hyu⟩ := LogClock.toSys_stands hS hu duration
      obtain rfl : x' = x := Option.some_injective _ (hx'.symm.trans hx)
      obtain rfl : y' = y := Option.some_injective _ (hy'.symm.trans hy)
      rw [ht.value hxt, hu.value hyu]
      exact epoch.systemTime_lt htu

theorem clock_conversions_exact_of_epoch :
    ∃ epoch : EpochInfo, epoch.Covers 3 ∧ epoch.Covers 8 ∧
      ((∀ t, epoch.Covers t → ∃ x y, epoch.toSys .int64 t = some x ∧
          x.value = epoch.systemTime t ∧
          LogClock.toSys epoch (reading .uint64 t) = some y ∧ y.value = epoch.systemTime t ∧
          LogClock.fromSys epoch y = some (reading _ t)) ∧
        ∀ t u, epoch.Covers t → epoch.Covers u → t < u →
          (∀ x y, epoch.toSys .int64 t = some x → epoch.toSys .int64 u = some y →
            x.value < y.value) ∧
          ∀ x y, LogClock.toSys epoch (reading .uint64 t) = some x →
            LogClock.toSys epoch (reading .uint64 u) = some y → x.value < y.value) :=
  ⟨⟨⟨1000⟩, ⟨5⟩⟩, by decide, by decide, clock_conversions_exact _ (by decide) _ _⟩

/-- A reading before the epoch, for which the unsigned difference wraps around. -/
example : (EpochInfo.toSys ⟨⟨1000⟩, ⟨5⟩⟩ .int64 3).map Count.value = some 998 := by decide

end Deeplog.Source

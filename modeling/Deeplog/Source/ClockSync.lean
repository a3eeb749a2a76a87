import Deeplog.Lib.Runs
import Deeplog.Source.LogClock
import Mathlib.Logic.Function.Basic

/-!
# Synchronising the log clock

`global_epoch_info` keeps the system reference of the process in an atomic that any number of
threads correct next to each other: a call of `try_sync_with_system` loads it, reads both clocks,
and exchanges it if it is off by a millisecond or more. The drift is added to the reference that
the call has loaded, which may be an old one, or one that has been away in between; what comes out
depends on the readings alone.
-/

namespace Deeplog.Source

open Ticks (Rep Count)
open Runs (run Along)

/-- `log_clock::now`, for a reading of the internal clock. -/
def LogClock.now (internalNow : Count .int64) : UInt64 := ⟨internalNow.bits⟩

namespace ClockSync

/-- `ceil<system_clock::duration>(ceil<internal_clock::duration>(1ms))` -/
def tolerance : Count .int64 := ⟨1000000⟩

/-- `std::chrono::abs` -/
def abs (d : Count .int64) : Option (Count .int64) :=
  if 0 ≤ d.value then some d else (⟨0⟩ : Count .int64).sub d

/-- What a call computes from the epoch that it has loaded and the one that it has read: the next
system reference, or nothing where the drift is tolerated. -/
def nextSystemReference (oldEpoch currentEpoch : EpochInfo) : Option (Option (Count .int64)) := do
  let sysDiff : Count .int64 ← currentEpoch.systemReference.sub oldEpoch.systemReference
  let steadyDiff : Count .int64 ← currentEpoch.steadyReference.sub oldEpoch.steadyReference
  let drift : Count .int64 ← sysDiff.sub steadyDiff
  let magnitude ← abs drift
  if magnitude.value < tolerance.value then
    pure none
  else do
    -- both clocks count nanoseconds, of which `round` has nothing to round
    let next : Count .int64 ← oldEpoch.systemReference.add drift
    pure (some next)

/-- Where a thread is inside of `try_sync_with_system`. -/
inductive Call where
  | idle
  | loaded (oldSystemReference : Count .int64)
  | clocksRead (oldSystemReference : Count .int64) (currentEpoch : EpochInfo)

/-- `global_epoch_info` and the threads that synchronise it. -/
structure GlobalEpochInfo where
  systemReference : Count .int64
  /-- what the atomic has been before, the newest first -/
  former : List (Count .int64)
  steadyReference : Count .int64
  calls : Nat → Call
  /-- what the calls have returned, the newest first -/
  returned : List Bool

/-- A step of thread `i`. -/
inductive Access where
  /-- loads the `k`th newest reference -/
  | load (i k : Nat)
  /-- the two readings, which the constructor of `epoch_info` is called with -/
  | readClocks (i : Nat) (currentEpoch : EpochInfo)
  /-- `compare_exchange_strong`, which may see the `k`th newest reference where it fails -/
  | exchange (i k : Nat)
  deriving DecidableEq

namespace GlobalEpochInfo

def construct (epoch : EpochInfo) : GlobalEpochInfo :=
  ⟨epoch.systemReference, [], epoch.steadyReference, fun _ => .idle, []⟩

/-- Everything that a load can give. -/
def references (self : GlobalEpochInfo) : List (Count .int64) :=
  self.systemReference :: self.former

/-- The epoch with one of the references. -/
def epochOf (self : GlobalEpochInfo) (systemReference : Count .int64) : EpochInfo :=
  ⟨systemReference, self.steadyReference⟩

def enter (i : Nat) (c : Call) (self : GlobalEpochInfo) : GlobalEpochInfo :=
  { self with calls := Function.update self.calls i c }

def finish (i : Nat) (result : Bool) (self : GlobalEpochInfo) : GlobalEpochInfo :=
  { self.enter i .idle with returned := result :: self.returned }

def replace (systemReference : Count .int64) (self : GlobalEpochInfo) : GlobalEpochInfo :=
  { self with systemReference, former := self.references }

variable {s : GlobalEpochInfo} {i : Nat} {c : Call} {result : Bool} {next : Count .int64}

@[simp]
theorem calls_enter : (s.enter i c).calls = Function.update s.calls i c := rfl

@[simp]
theorem references_enter : (s.enter i c).references = s.references := rfl

@[simp]
theorem calls_finish : (s.finish i result).calls = Function.update s.calls i .idle := rfl

@[simp]
theorem references_finish : (s.finish i result).references = s.references := rfl

@[simp]
theorem calls_replace : (s.replace next).calls = s.calls := rfl

@[simp]
theorem references_replace : (s.replace next).references = next :: s.references := rfl

end GlobalEpochInfo

open GlobalEpochInfo

/-- A step, unless a computation overflows or the thread is elsewhere. -/
def step : Access → GlobalEpochInfo → Option GlobalEpochInfo
  | .load i k, s =>
    match s.calls i with
    | .idle => s.references[k]?.map fun r => s.enter i (.loaded r)
    | _ => none
  | .readClocks i currentEpoch, s =>
    match s.calls i with
    | .loaded old => some (s.enter i (.clocksRead old currentEpoch))
    | _ => none
  | .exchange i k, s =>
    match s.calls i with
    | .clocksRead old currentEpoch =>
      (nextSystemReference (s.epochOf old) currentEpoch).bind fun
        | none => some (s.finish i false)
        | some next =>
          -- an exchange that succeeds has seen the newest reference
          s.references[k]?.bind fun seen =>
            if seen ≠ old then some (s.finish i false)
            else if k = 0 then some ((s.replace next).finish i true)
            else none
    | _ => none

/-! ## Readings -/

/-- Readings of clocks that are less than `2 ^ 62` nanoseconds from their zeros, where the steady
one has passed the reference of the epoch. -/
structure Plausible (steadyReference : Count .int64) (currentEpoch : EpochInfo) : Prop where
  reference_nonneg : 0 ≤ steadyReference.value
  system_nonneg : 0 ≤ currentEpoch.systemReference.value
  system_lt : currentEpoch.systemReference.value < 2 ^ 62
  steady_le : steadyReference.value ≤ currentEpoch.steadyReference.value
  steady_lt : currentEpoch.steadyReference.value < 2 ^ 62

instance (steadyReference : Count .int64) (currentEpoch : EpochInfo) :
    Decidable (Plausible steadyReference currentEpoch) :=
  decidable_of_iff (0 ≤ steadyReference.value ∧ 0 ≤ currentEpoch.systemReference.value ∧
      currentEpoch.systemReference.value < 2 ^ 62 ∧
      steadyReference.value ≤ currentEpoch.steadyReference.value ∧
      currentEpoch.steadyReference.value < 2 ^ 62)
    ⟨fun h => ⟨h.1, h.2.1, h.2.2.1, h.2.2.2.1, h.2.2.2.2⟩,
      fun h => ⟨h.1, h.2, h.3, h.4, h.5⟩⟩

/-- The readings of an access are plausible. -/
def Access.Plausible (steadyReference : Count .int64) : Access → Prop
  | .readClocks _ currentEpoch => ClockSync.Plausible steadyReference currentEpoch
  | _ => True

instance (steadyReference : Count .int64) : DecidablePred (Access.Plausible steadyReference)
  | .readClocks _ _ => inferInstanceAs (Decidable (ClockSync.Plausible _ _))
  | .load .. | .exchange .. => .isTrue trivial

/-- How far the system clock is ahead of what an epoch makes of the steady clock. -/
def drift (oldEpoch currentEpoch : EpochInfo) : Int :=
  currentEpoch.systemReference.value - oldEpoch.systemReference.value -
    (currentEpoch.steadyReference.value - oldEpoch.steadyReference.value)

section

variable {epoch current : EpochInfo} {m r old : Count .int64}

theorem abs_exact {d : Count .int64} (h : -2 ^ 63 < d.value) :
    ∃ c, abs d = some c ∧ c.value = |d.value| := by
  by_cases hd : 0 ≤ d.value
  · exact ⟨d, if_pos hd, (abs_of_nonneg hd).symm⟩
  · have hzero : (⟨0⟩ : Count .int64).value = 0 := by decide
    obtain ⟨c, hc, hvalue⟩ := Count.sub_exact (a := ⟨0⟩) (b := d)
      (by simp only [hzero, Rep.min]; omega) (by simp only [hzero, Rep.max]; omega)
    refine ⟨c, (if_neg hd).trans hc, ?_⟩
    rw [hvalue, hzero, abs_of_neg (by omega)]
    omega

/-- Nothing overflows, and the reference that has been loaded cancels out of the next one. -/
theorem nextSystemReference_cases (hcurrent : Plausible epoch.steadyReference current)
    (hmin : -2 ^ 62 < epoch.systemReference.value) (hmax : epoch.systemReference.value < 2 ^ 62) :
    (nextSystemReference epoch current = some none ∧ |drift epoch current| < 1000000) ∨
      ∃ next, nextSystemReference epoch current = some (some next) ∧
        1000000 ≤ |drift epoch current| ∧
        next.value = epoch.systemReference.value + drift epoch current := by
  obtain ⟨hm, hsystem, hsystem', hsteady, hsteady'⟩ := hcurrent
  obtain ⟨sysDiff, hsys, hsysValue⟩ := Count.sub_exact (a := current.systemReference)
    (b := epoch.systemReference) (by simp only [Rep.min]; omega) (by simp only [Rep.max]; omega)
  obtain ⟨steadyDiff, hstd, hstdValue⟩ := Count.sub_exact (a := current.steadyReference)
    (b := epoch.steadyReference) (by simp only [Rep.min]; omega) (by simp only [Rep.max]; omega)
  obtain ⟨d, hd, hdValue⟩ := Count.sub_exact (a := sysDiff) (b := steadyDiff)
    (by simp only [Rep.min]; omega) (by simp only [Rep.max]; omega)
  have hdrift : d.value = drift epoch current := by
    rw [hdValue, hsysValue, hstdValue, drift]
  obtain ⟨magnitude, habs, hmagnitude⟩ := abs_exact (d := d) (by omega)
  have htolerance : tolerance.value = 1000000 := by decide
  rw [hdrift] at hmagnitude
  have hcompute : nextSystemReference epoch current =
      if magnitude.value < tolerance.value then some none
      else (epoch.systemReference.add d).bind fun next => some (some next) := by
    simp only [nextSystemReference, hsys, hstd, hd, habs, Option.bind_eq_bind, Option.bind_some]
    rfl
  rw [hcompute, hmagnitude, htolerance]
  by_cases hsmall : |drift epoch current| < 1000000
  · exact .inl ⟨if_pos hsmall, hsmall⟩
  · obtain ⟨next, hnext, hvalue⟩ := Count.add_exact (a := epoch.systemReference) (b := d)
      (by simp only [Rep.min]; omega) (by simp only [Rep.max]; omega)
    refine .inr ⟨next, ?_, by omega, hvalue.trans (by rw [hdrift])⟩
    rw [if_neg hsmall, hnext]
    rfl

end

/-! ## Runs -/

/-- With this reference, the readings are of one moment. -/
def Meets (steadyReference reference : Count .int64) (currentEpoch : EpochInfo) : Prop :=
  drift ⟨reference, steadyReference⟩ currentEpoch = 0

/-- What a thread holds comes from the atomic and from the clocks. -/
def Call.Sound (references : List (Count .int64)) (taken : EpochInfo → Prop) : Call → Prop
  | .idle => True
  | .loaded old => old ∈ references
  | .clocksRead old currentEpoch => old ∈ references ∧ taken currentEpoch

/-- What holds in every state of a run whose readings are among `taken`. -/
structure Inv (start : EpochInfo) (taken : EpochInfo → Prop) (s : GlobalEpochInfo) : Prop where
  steady : s.steadyReference = start.steadyReference
  met : ∀ r ∈ s.references, r = start.systemReference ∨
    ∃ current, taken current ∧ Meets start.steadyReference r current
  calls : ∀ i, (s.calls i).Sound s.references taken
  apart : s.references.IsChain fun r r' => 1000000 ≤ |r.value - r'.value|
  counted : s.former.length = s.returned.count true

section

variable {start current : EpochInfo} {taken : EpochInfo → Prop} {s s' : GlobalEpochInfo}
  {old r : Count .int64} {i k : Nat} {op : Access}

theorem Call.Sound.mono {references references' : List (Count .int64)} {c : Call}
    (h : c.Sound references taken) (hsub : references ⊆ references') :
    c.Sound references' taken := by
  cases c with
  | idle => trivial
  | loaded old => exact hsub h
  | clocksRead old current => exact ⟨hsub h.1, h.2⟩

theorem Inv.construct : Inv start taken (construct start) where
  steady := rfl
  met _ hr := .inl (List.mem_singleton.mp hr)
  calls _ := trivial
  apart := .singleton _
  counted := rfl

/-- A reference that readings meet is theirs less than `2 ^ 62` nanoseconds from zero too. -/
theorem Inv.bounded (h : Inv start taken s) (hstart : Plausible start.steadyReference start)
    (htaken : ∀ current, taken current → Plausible start.steadyReference current)
    (hr : r ∈ s.references) : -2 ^ 62 < r.value ∧ r.value < 2 ^ 62 := by
  obtain rfl | ⟨current, hcurrent, hmeets⟩ := h.met r hr
  · have hnonneg := hstart.system_nonneg
    have hlt := hstart.system_lt
    omega
  · obtain ⟨hm, hsystem, hsystem', hsteady, hsteady'⟩ := htaken current hcurrent
    rw [Meets, drift] at hmeets
    simp only at hmeets
    omega

theorem Inv.cases_of_read (h : Inv start taken s)
    (hstart : Plausible start.steadyReference start)
    (htaken : ∀ current, taken current → Plausible start.steadyReference current)
    (hcall : s.calls i = .clocksRead old current) :
    (nextSystemReference (s.epochOf old) current = some none ∧
        |drift (s.epochOf old) current| < 1000000) ∨
      ∃ next, nextSystemReference (s.epochOf old) current = some (some next) ∧
        1000000 ≤ |drift (s.epochOf old) current| ∧
        next.value = old.value + drift (s.epochOf old) current := by
  have hsound := h.calls i
  rw [hcall] at hsound
  obtain ⟨hmin, hmax⟩ := h.bounded hstart htaken hsound.1
  have hplausible : Plausible (s.epochOf old).steadyReference current := by
    rw [epochOf, h.steady]
    exact htaken current hsound.2
  exact nextSystemReference_cases hplausible hmin hmax

/-- The steps that leave the atomic as it is. -/
theorem Inv.enter (h : Inv start taken s) {c : Call} (hc : c.Sound s.references taken) :
    Inv start taken (s.enter i c) where
  steady := h.steady
  met := h.met
  calls j := by
    by_cases hij : j = i
    · subst hij
      simpa using hc
    · simpa [hij] using h.calls j
  apart := h.apart
  counted := h.counted

theorem Inv.fail (h : Inv start taken s) : Inv start taken (s.finish i false) where
  steady := h.steady
  met := h.met
  calls := (h.enter (i := i) (c := .idle) trivial).calls
  apart := h.apart
  counted := by simpa [GlobalEpochInfo.finish, GlobalEpochInfo.enter] using h.counted

/-- The exchange puts the reference in whose readings meet it, at a distance of the drift. -/
theorem Inv.replace (h : Inv start taken s) (hcurrent : taken current) {next : Count .int64}
    (hdrift : 1000000 ≤ |drift (s.epochOf s.systemReference) current|)
    (hnext : next.value =
      s.systemReference.value + drift (s.epochOf s.systemReference) current) :
    Inv start taken ((s.replace next).finish i true) where
  steady := h.steady
  met r hr := by
    obtain rfl | hr := List.mem_cons.mp hr
    · refine .inr ⟨current, hcurrent, ?_⟩
      rw [drift, epochOf, h.steady] at hnext
      rw [Meets, drift]
      simp only at hnext ⊢
      omega
    · exact h.met r hr
  calls j := by
    by_cases hij : j = i
    · subst hij
      simp [Call.Sound]
    · simpa [hij] using (h.calls j).mono (List.subset_cons_self next _)
  apart := by
    have hmoved : next.value - s.systemReference.value =
        drift (s.epochOf s.systemReference) current := by
      omega
    exact List.isChain_cons_cons.mpr ⟨hmoved ▸ hdrift, h.apart⟩
  counted := by
    have hcounted := h.counted
    simp only [GlobalEpochInfo.finish, GlobalEpochInfo.enter, GlobalEpochInfo.replace,
      GlobalEpochInfo.references, List.length_cons, List.count_cons_self]
    omega

theorem Inv.step (hstart : Plausible start.steadyReference start)
    (htaken : ∀ current, taken current → Plausible start.steadyReference current)
    (hop : ∀ i current, op = .readClocks i current → taken current) (h : Inv start taken s)
    (hstep : step op s = some s') : Inv start taken s' := by
  cases op with
  | load i k =>
    cases hcall : s.calls i with
    | idle =>
      simp only [ClockSync.step, hcall] at hstep
      obtain ⟨r, hr, rfl⟩ := Option.map_eq_some_iff.mp hstep
      exact h.enter (List.mem_of_getElem? hr)
    | loaded | clocksRead => simp [ClockSync.step, hcall] at hstep
  | readClocks i current =>
    cases hcall : s.calls i with
    | loaded old =>
      have hsound := h.calls i
      rw [hcall] at hsound
      simp only [ClockSync.step, hcall] at hstep
      obtain rfl := Option.some.inj hstep
      exact h.enter ⟨hsound, hop i current rfl⟩
    | idle | clocksRead => simp [ClockSync.step, hcall] at hstep
  | exchange i k =>
    cases hcall : s.calls i with
    | clocksRead old current =>
      have hsound := h.calls i
      rw [hcall] at hsound
      simp only [ClockSync.step, hcall] at hstep
      obtain ⟨hnone, -⟩ | ⟨next, hsome, hdrift, hnext⟩ := h.cases_of_read hstart htaken hcall
      · simp only [hnone, Option.bind_some] at hstep
        obtain rfl := Option.some.inj hstep
        exact h.fail
      · simp only [hsome, Option.bind_some] at hstep
        obtain ⟨seen, hseen, hstep⟩ := Option.bind_eq_some_iff.mp hstep
        split_ifs at hstep with hne hzero
        · obtain rfl := Option.some.inj hstep
          exact h.fail
        · -- the newest reference is the one that the call has loaded
          obtain rfl := Option.some.inj hstep
          subst hzero
          obtain rfl : s.systemReference = old :=
            (Option.some.inj hseen).trans (not_not.mp hne)
          exact h.replace hsound.2 hdrift hnext
    | idle | loaded => simp [ClockSync.step, hcall] at hstep

theorem now_toNat {c : Count .int64} (h : 0 ≤ c.value) :
    ((LogClock.now c).toNat : Int) = c.value := by
  have hcond := BitVec.toInt_eq_toNat_cond c.bits
  have hlt := c.bits.isLt
  simp only [Count.value] at h ⊢
  rw [hcond] at h ⊢
  rw [LogClock.now, UInt64.toNat_ofBitVec]
  split_ifs at h ⊢ with hhalf
  · rfl
  · omega

/-- Readers of the epoch give the moment of the readings the time that the system clock had. -/
theorem toSys_of_meets {m : Count .int64} (hcurrent : Plausible m current)
    (h : Meets m r current) :
    EpochInfo.toSys ⟨r, m⟩ .int64 (LogClock.now current.steadyReference) =
      some current.systemReference := by
  obtain ⟨c, hc, hstands⟩ :=
    EpochInfo.toSys_stands ⟨r, m⟩ .int64 (LogClock.now current.steadyReference)
  have hsteady : 0 ≤ current.steadyReference.value :=
    hcurrent.reference_nonneg.trans hcurrent.steady_le
  have htime : EpochInfo.systemTime ⟨r, m⟩ (LogClock.now current.steadyReference) =
      current.systemReference.value := by
    rw [Meets, drift] at h
    rw [EpochInfo.systemTime, now_toNat hsteady]
    simp only at h ⊢
    omega
  rw [htime] at hstands
  exact hc.trans (congrArg some (Count.ext_of_stands hstands (Count.stands_value _)))

/-- A thread that has its readings can always go on. Where the reference is the one that it has
loaded, the epoch is in step with the readings then; elsewhere the reference stays. -/
theorem Inv.exchange (h : Inv start taken s) (hstart : Plausible start.steadyReference start)
    (htaken : ∀ current, taken current → Plausible start.steadyReference current)
    (hcall : s.calls i = .clocksRead old current) :
    ∃ s', ClockSync.step (.exchange i 0) s = some s' ∧ s'.calls i = .idle ∧
      (old = s.systemReference → |drift (s'.epochOf s'.systemReference) current| < 1000000) ∧
      (old ≠ s.systemReference → s'.systemReference = s.systemReference) := by
  obtain ⟨hnone, hsmall⟩ | ⟨next, hsome, -, hnext⟩ := h.cases_of_read hstart htaken hcall
  · refine ⟨s.finish i false, ?_, by simp, fun hold => hold ▸ hsmall, fun _ => rfl⟩
    simp only [ClockSync.step, hcall, hnone, Option.bind_some]
  · by_cases hold : s.systemReference = old
    · refine ⟨(s.replace next).finish i true, ?_, by simp, fun _ => ?_,
        fun hne => absurd hold.symm hne⟩
      · simp [ClockSync.step, hcall, hsome, references, hold]
      · have hzero : drift (s.epochOf next) current = 0 := by
          simp only [drift, epochOf] at hnext ⊢
          omega
        change |drift (s.epochOf next) current| < 1000000
        rw [hzero]
        decide
    · refine ⟨s.finish i false, ?_, by simp, fun h => absurd h.symm hold, fun _ => rfl⟩
      simp [ClockSync.step, hcall, hsome, references, hold]

end

/-- Whatever steps threads take in whatever order, also with references that are out of date:
every epoch that a reader can get is the first one or tells the time of the system clock at the
readings of a call, neighbours differ by a millisecond or more, there are as many changes as calls
that have returned `true`, and no call can get stuck; one whose reference is still there leaves an
epoch that is right within a millisecond. -/
theorem epoch_synchronised (start : EpochInfo) (hstart : Plausible start.steadyReference start)
    (ops : List Access) (hops : ∀ op ∈ ops, op.Plausible start.steadyReference)
    (s : GlobalEpochInfo) (hrun : run step ops (construct start) = some s) :
    (∀ r ∈ s.references, r = start.systemReference ∨
      ∃ i current, .readClocks i current ∈ ops ∧
        EpochInfo.toSys ⟨r, s.steadyReference⟩ .int64 (LogClock.now current.steadyReference) =
          some current.systemReference) ∧
    (s.references.IsChain fun r r' => 1000000 ≤ |r.value - r'.value|) ∧
    s.former.length = s.returned.count true ∧
    ∀ i old current, s.calls i = .clocksRead old current →
      ∃ s', step (.exchange i 0) s = some s' ∧ s'.calls i = .idle ∧
        (old = s.systemReference → |drift (s'.epochOf s'.systemReference) current| < 1000000) ∧
        (old ≠ s.systemReference → s'.systemReference = s.systemReference) := by
  let taken (current : EpochInfo) : Prop := ∃ i, Access.readClocks i current ∈ ops
  have htaken : ∀ current, taken current → Plausible start.steadyReference current := by
    rintro current ⟨i, hmem⟩
    exact hops _ hmem
  have hcond : Along step (fun op _ => op ∈ ops) ops (construct start) :=
    .of_forall fun _ hmem _ => hmem
  have hinv : Inv start taken s := by
    refine Runs.invariant (fun op s s' hmem h hstep => ?_) hcond Inv.construct hrun
    refine Inv.step hstart htaken ?_ h hstep
    rintro i current rfl
    exact ⟨i, hmem⟩
  refine ⟨fun r hr => ?_, hinv.apart, hinv.counted, fun i old current hcall => ?_⟩
  · obtain hfirst | ⟨current, ⟨i, hmem⟩, hmeets⟩ := hinv.met r hr
    · exact .inl hfirst
    · refine .inr ⟨i, current, hmem, ?_⟩
      rw [hinv.steady]
      exact toSys_of_meets (hops _ hmem) hmeets
  · exact hinv.exchange hstart htaken hcall

/-- Two threads that have loaded the same reference, and read the clocks before and after the
system clock has been set. -/
def sampleOps : List Access :=
  [.load 0 0, .load 1 0, .readClocks 0 ⟨⟨3000000⟩, ⟨8⟩⟩, .readClocks 1 ⟨⟨5000000⟩, ⟨9⟩⟩,
    .exchange 1 0, .exchange 0 0, .load 0 1, .readClocks 0 ⟨⟨9000000⟩, ⟨20⟩⟩]

theorem epoch_synchronised_sample :
    ∃ s, run step sampleOps (construct ⟨⟨1000⟩, ⟨5⟩⟩) = some s ∧ s.returned = [false, true] ∧
      ∀ i old current, s.calls i = .clocksRead old current →
        ∃ s', step (.exchange i 0) s = some s' ∧ s'.calls i = .idle ∧
          (old = s.systemReference →
            |drift (s'.epochOf s'.systemReference) current| < 1000000) ∧
          (old ≠ s.systemReference → s'.systemReference = s.systemReference) :=
  ⟨_, rfl, rfl, (epoch_synchronised ⟨⟨1000⟩, ⟨5⟩⟩ (by decide) sampleOps (by decide) _ rfl).2.2.2⟩

end ClockSync

end Deeplog.Source

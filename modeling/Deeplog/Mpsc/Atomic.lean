import Deeplog.Mpsc.Fifo
import Deeplog.Mpsc.Range

/-!
# Allocation takes effect with its exchange

Producers load the hands one after the other and repeat the `compare_exchange`. As long as each
exchange that succeeds has its room at that moment, the loads in front of it do not matter: the
region goes through the steps in which `allocate` is one step, taken where the exchange is.
-/

namespace Deeplog.Mpsc

/-- The step of the region that an access is, if it is one. -/
def Access.op (regionEnd : Nat) (access : Access) (s : Shared) : Option Bus.Op :=
  match access with
  | .loadRead _ _ | .loadAlloc _ => none
  | .exchange p spurious =>
    match s.producers p with
    | .allocLoaded payloadSize readHand allocHand =>
      if (place regionEnd readHand allocHand (allocSizeOf payloadSize)).isSome = true ∧
          spurious = false ∧ s.bus.region.allocPtr = allocHand then some (.allocate payloadSize)
      else none
    | _ => none
  | .storeHead p =>
    match s.producers p with
    | .exchanged i => some (.storeHead i)
    | _ => none
  | .write i o value => some (.write i o value)
  | .commit i => some (.commit i)
  | .consume => some .consume

/-- The steps of the region in a list of accesses. -/
abbrev Shared.ops (regionEnd : Nat) : List Access → Shared → List Bus.Op :=
  Runs.trace (Shared.step regionEnd) (Access.op regionEnd)

/-- The queue that the region implements. -/
def Shared.queue (s : Shared) : Fifo.Queue Bytes := s.bus.queue

variable {regionEnd : Nat}

/-- Where the read hand of this moment grants the room too, the exchange reserves what it would
reserve with that hand. -/
theorem Bus.reserve_of_roomLeft (hE : regionEnd % 4 = 0) {b b' : Bus} {n readHand : Nat}
    {ms : List Message} (hpool : Pool regionEnd b.region ms) (hr : readHand < regionEnd)
    (hfits : regionEnd + allocSizeOf n < 2 ^ 32)
    (hroom : (place regionEnd b.region.readPtr b.region.allocPtr (allocSizeOf n)).isSome = true)
    (h : b.reserve regionEnd readHand n = some b') :
    b.reserve regionEnd b.region.readPtr n = some b' := by
  obtain ⟨pos, stop, hplace, -⟩ := Bus.reserve_cases h
  obtain ⟨x, hx⟩ := Option.isSome_iff_exists.mp hroom
  have halloc := hpool.alloc_lt
  have hold := place_eq hE hr halloc hpool.alloc_aligned hfits hplace
  have hnow := place_eq hE hpool.read_lt halloc hpool.alloc_aligned hfits hx
  rw [← h, Bus.reserve, Bus.reserve, hplace, hx, hold, hnow]

namespace Shared

variable {s s' : Shared} {access : Access}

/-- A message that is reserved fits. -/
theorem Ok.op_fits {op : Bus.Op} (h : s.Ok regionEnd) (hop : access.op regionEnd s = some op) :
    op.Fits regionEnd := by
  cases access with
  | loadRead p n => cases hop
  | loadAlloc p => cases hop
  | exchange p spurious =>
    simp only [Access.op] at hop
    split at hop
    case h_2 => cases hop
    case h_1 n readHand allocHand hp =>
      have hprod := h.producers p
      rw [hp] at hprod
      split at hop
      · cases hop
        exact hprod.2.1
      · cases hop
  | storeHead p =>
    simp only [Access.op] at hop
    split at hop
    · cases hop
      trivial
    · cases hop
  | write i o value => cases hop; trivial
  | commit i => cases hop; trivial
  | consume => cases hop; trivial

/-- An access is the step that `Access.op` says it is, or changes nothing of the region. -/
theorem Ok.step_op (hE : regionEnd % 4 = 0) (hfresh : access.Fresh regionEnd s)
    (h : s.Ok regionEnd) (hs : s.step regionEnd access = some s') :
    Bus.run regionEnd (access.op regionEnd s).toList s.bus = some s'.bus := by
  have hone (op : Bus.Op) (hop : access.op regionEnd s = some op)
      (hb : s.bus.apply regionEnd op = some s'.bus) :
      Bus.run regionEnd (access.op regionEnd s).toList s.bus = some s'.bus := by
    rw [hop]
    exact Runs.run_cons_eq_some.mpr ⟨_, hb, rfl⟩
  cases access with
  | loadRead p n =>
    rcases loadRead_cases hs with rfl | ⟨-, rfl⟩ <;> rfl
  | loadAlloc p =>
    obtain ⟨n, readHand, -, rfl⟩ := loadAlloc_cases hs
    rfl
  | exchange p spurious =>
    cases hp : s.producers p with
    | idle => simp [Shared.step, hp] at hs
    | readLoaded n readHand => simp [Shared.step, hp] at hs
    | exchanged i => simp [Shared.step, hp] at hs
    | allocLoaded n readHand allocHand =>
      have hprod := h.producers p
      rw [hp] at hprod
      cases hplace : place regionEnd readHand allocHand (allocSizeOf n) with
      | none =>
        simp only [Shared.step, hp, hplace, Option.some.injEq] at hs
        subst hs
        have hnone : (Access.exchange p spurious).op regionEnd s = none := by
          simp only [Access.op, hp, hplace, Option.isSome_none, Bool.false_eq_true, false_and,
            if_false]
        rw [hnone]
        rfl
      | some x =>
        by_cases hgo : spurious = false ∧ s.bus.region.allocPtr = allocHand
        · simp only [Shared.step, hp, hplace, if_pos hgo] at hs
          obtain ⟨bus, hb, rfl⟩ := Option.map_eq_some_iff.mp hs
          obtain ⟨rfl, hhand⟩ := hgo
          have hisSome : (place regionEnd readHand allocHand (allocSizeOf n)).isSome = true := by
            rw [hplace]; rfl
          -- the room that the old read hand grants is there
          simp only [Access.Fresh, Producer.RoomLeft, hp] at hfresh
          have hroom := hfresh hhand hisSome
          rw [← hhand] at hroom
          have hnow := Bus.reserve_of_roomLeft hE h.bus.pending_pool hprod.2.2 hprod.2.1 hroom hb
          refine hone (.allocate n) ?_ ?_
          · simp only [Access.op, hp]
            rw [if_pos (And.intro hisSome (And.intro trivial hhand))]
          · simp only [Bus.apply, Bus.allocate, if_neg (Nat.not_lt.mpr hprod.1), hnow]
            rfl
        · simp only [Shared.step, hp, hplace, if_neg hgo, Option.some.injEq] at hs
          subst hs
          have hnone : (Access.exchange p spurious).op regionEnd s = none := by
            simp only [Access.op, hp]
            exact if_neg fun hc => hgo hc.2
          rw [hnone]
          rfl
  | storeHead p =>
    cases hp : s.producers p with
    | idle => simp [Shared.step, hp] at hs
    | readLoaded n readHand => simp [Shared.step, hp] at hs
    | allocLoaded n readHand allocHand => simp [Shared.step, hp] at hs
    | exchanged i =>
      simp only [Shared.step, hp] at hs
      obtain ⟨bus, hb, rfl⟩ := Option.map_eq_some_iff.mp hs
      refine hone (.storeHead i) ?_ hb
      simp only [Access.op, hp]
  | write i o value =>
    obtain ⟨bus, hb, rfl⟩ := Option.map_eq_some_iff.mp hs
    exact hone _ rfl hb
  | commit i =>
    obtain ⟨bus, hb, rfl⟩ := Option.map_eq_some_iff.mp hs
    exact hone _ rfl hb
  | consume =>
    obtain ⟨bus, hb, rfl⟩ := Option.map_eq_some_iff.mp hs
    exact hone _ rfl hb

section Run

variable (hE : regionEnd % 4 = 0) (hroom : regionEnd + 2 ^ 29 < 2 ^ 32) {accesses : List Access}
  (hfresh : Runs.Along (Shared.step regionEnd) (Access.Fresh regionEnd) accesses s)
  (h : s.Ok regionEnd) (hrun : Shared.run regionEnd accesses s = some s')

include hE hroom in
/-- A message that does not fit is refused before anything is done for it. -/
theorem Ok.step_fresh (hfresh : access.Fresh regionEnd s) (h : s.Ok regionEnd)
    (hs : s.step regionEnd access = some s') : s'.Ok regionEnd := by
  by_cases hfits : access.Fits regionEnd
  · exact h.step hE hfits hfresh hs
  · cases access with
    | loadRead p n =>
      rcases loadRead_cases hs with rfl | ⟨hn, -⟩
      · exact h
      · refine absurd ?_ hfits
        have hle := allocSizeOf_le hn
        unfold Access.Fits
        omega
    | loadAlloc p => exact absurd trivial hfits
    | exchange p spurious => exact absurd trivial hfits
    | storeHead p => exact absurd trivial hfits
    | write i o value => exact absurd trivial hfits
    | commit i => exact absurd trivial hfits
    | consume => exact absurd trivial hfits

include hE hroom hfresh h hrun

theorem Ok.run : s'.Ok regionEnd :=
  Runs.invariant (fun _ _ _ hc hok hs => hok.step_fresh hE hroom hc hs) hfresh h hrun

/-- The region goes through its own steps. -/
theorem Ok.run_ops : Bus.run regionEnd (Shared.ops regionEnd accesses s) s.bus = some s'.bus :=
  Runs.project (fun _ _ _ hc hok hs => hok.step_fresh hE hroom hc hs)
    (fun _ _ _ hc hok hs => hok.step_op hE hc hs) hfresh h hrun

/-- And it remains the queue that it is with allocations in one step. -/
theorem Ok.run_refines : Fifo.Steps s.queue s'.queue := by
  refine Runs.simulation (fun _ _ _ hc hok hs => hok.step_fresh hE hroom hc hs)
    (fun access t t' hc hok hs => ?_) hfresh h hrun
  have hone := hok.step_op hE hc hs
  cases hop : access.op regionEnd t with
  | none =>
    rw [hop] at hone
    unfold queue
    rw [Option.some.inj hone]
  | some op =>
    rw [hop] at hone
    obtain ⟨b, hb, hend⟩ := Runs.run_cons_eq_some.mp hone
    rw [Option.some.inj hend] at hb
    exact hok.bus.refines hE (hok.op_fits hop) hb

end Run

end Shared

end Deeplog.Mpsc

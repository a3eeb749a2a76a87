import Deeplog.Mpsc.ReadRegion

/-!
# Producers that load the hands one at a time

`allocate` loads `read_ptr` once, loads `alloc_ptr` separately, and repeats the
`compare_exchange` with a fresh allocation hand but the old read hand. Here every one of these
accesses is a step, for any number of producers next to the consumer. Slots stay apart as long
as the room seen through the old read hand is still there; a read hand that is a lap old
breaks that.
-/

namespace Deeplog.Mpsc

/-- Where a producer is inside of `allocate`. -/
inductive Producer where
  | idle
  /-- `read_ptr` has been loaded -/
  | readLoaded (payloadSize readHand : Nat)
  /-- `alloc_ptr` has been loaded too, first or by a failed `compare_exchange` -/
  | allocLoaded (payloadSize readHand allocHand : Nat)
  /-- behind the `compare_exchange`, which reserved message `i` -/
  | exchanged (i : Nat)

/-- The room that a producer sees through its read hand is there if its exchange succeeds. -/
def Producer.RoomLeft (regionEnd : Nat) (region : Region) : Producer → Prop
  | .allocLoaded payloadSize readHand allocHand =>
    region.allocPtr = allocHand →
      (place regionEnd readHand allocHand (allocSizeOf payloadSize)).isSome = true →
      (place regionEnd region.readPtr allocHand (allocSizeOf payloadSize)).isSome = true
  | _ => True

instance (regionEnd : Nat) (region : Region) :
    (c : Producer) → Decidable (c.RoomLeft regionEnd region)
  | .allocLoaded _ _ _ => inferInstanceAs (Decidable (_ → _ → _))
  | .idle | .readLoaded _ _ | .exchanged _ => .isTrue trivial

/-- A region with its consumer and the producers of its messages. -/
structure Shared where
  bus : Bus
  producers : Nat → Producer

def Shared.init : Shared := ⟨.init, fun _ => .idle⟩

/-- A single atomic access. -/
inductive Access where
  | loadRead (p payloadSize : Nat)
  | loadAlloc (p : Nat)
  /-- the `compare_exchange_weak` of one pass, which may fail without a reason -/
  | exchange (p : Nat) (spurious : Bool)
  | storeHead (p : Nat)
  | write (i o : Nat) (value : UInt8)
  | commit (i : Nat)
  | consume

namespace Shared

def enter (p : Nat) (c : Producer) (s : Shared) : Shared :=
  { s with producers := Function.update s.producers p c }

def step (regionEnd : Nat) (access : Access) (s : Shared) : Option Shared :=
  match access with
  | .loadRead p payloadSize =>
    match s.producers p with
    | .idle =>
      if maxMessageSize < payloadSize then some s
      else some (s.enter p (.readLoaded payloadSize s.bus.region.readPtr))
    | _ => none
  | .loadAlloc p =>
    match s.producers p with
    | .readLoaded payloadSize readHand =>
      some (s.enter p (.allocLoaded payloadSize readHand s.bus.region.allocPtr))
    | _ => none
  | .exchange p spurious =>
    match s.producers p with
    | .allocLoaded payloadSize readHand allocHand =>
      match place regionEnd readHand allocHand (allocSizeOf payloadSize) with
      | none => some (s.enter p .idle) -- `not_enough_space`
      | some _ =>
        if spurious = false ∧ s.bus.region.allocPtr = allocHand then
          (s.bus.reserve regionEnd readHand payloadSize).map fun bus =>
            { s with bus }.enter p (.exchanged s.bus.messages.length)
        else some (s.enter p (.allocLoaded payloadSize readHand s.bus.region.allocPtr))
    | _ => none
  | .storeHead p =>
    match s.producers p with
    | .exchanged i => (s.bus.storeHead i).map fun bus => { s with bus }.enter p .idle
    | _ => none
  | .write i o value => (s.bus.write i o value).map fun bus => { s with bus }
  | .commit i => (s.bus.commit i).map fun bus => { s with bus }
  | .consume => (s.bus.consume regionEnd).map fun bus => { s with bus }

abbrev run (regionEnd : Nat) : List Access → Shared → Option Shared := Runs.run (step regionEnd)

/-- The pending slots share no byte and lie inside of the region. -/
def Apart (regionEnd : Nat) (s : Shared) : Prop :=
  (s.bus.pending.Pairwise fun m n => ∀ x, m.Covers x → ¬ n.Covers x) ∧
    ∀ m ∈ s.bus.pending, ∀ x, m.Covers x → x < regionEnd

end Shared

namespace Access

/-- The message fits below `2 ^ 32` wherever it is placed. -/
def Fits (regionEnd : Nat) : Access → Prop
  | .loadRead _ payloadSize => regionEnd + allocSizeOf payloadSize < 2 ^ 32
  | _ => True

instance (regionEnd : Nat) : (access : Access) → Decidable (access.Fits regionEnd)
  | .loadRead _ _ => inferInstanceAs (Decidable (_ < _))
  | .loadAlloc _ | .exchange _ _ | .storeHead _ | .write _ _ _ | .commit _ | .consume =>
    .isTrue trivial

/-- A `compare_exchange` that succeeds would also be tried with the read hand of this moment. -/
def Fresh (regionEnd : Nat) (access : Access) (s : Shared) : Prop :=
  match access with
  | .exchange p false => (s.producers p).RoomLeft regionEnd s.bus.region
  | _ => True

instance (regionEnd : Nat) (access : Access) (s : Shared) :
    Decidable (access.Fresh regionEnd s) :=
  match access with
  | .exchange p false => inferInstanceAs (Decidable ((s.producers p).RoomLeft _ _))
  | .exchange _ true | .loadRead _ _ | .loadAlloc _ | .storeHead _ | .write _ _ _ | .commit _
  | .consume => .isTrue trivial

end Access

/-! ## The invariant with producers -/

/-- Read hands held by producers come from the region, sizes passed the check. -/
def Producer.Ok (regionEnd : Nat) : Producer → Prop
  | .readLoaded payloadSize readHand | .allocLoaded payloadSize readHand _ =>
    payloadSize ≤ maxMessageSize ∧ regionEnd + allocSizeOf payloadSize < 2 ^ 32 ∧
      readHand < regionEnd
  | _ => True

structure Shared.Ok (regionEnd : Nat) (s : Shared) : Prop where
  bus : s.bus.Ok regionEnd
  producers : ∀ p, (s.producers p).Ok regionEnd

/-- The slots of a pool are pairwise disjoint. -/
theorem Pool.pairwise {regionEnd : Nat} (hE : regionEnd % 4 = 0) {region : Region}
    (as : List Message) {ms : List Message} (h : Pool regionEnd region (as ++ ms)) :
    ms.Pairwise fun m n => ∀ x, m.Covers x → ¬ n.Covers x := by
  induction ms generalizing as with
  | nil => exact .nil
  | cons m ms ih =>
    refine .cons (fun n hn x hx => ?_) (ih (as ++ [m]) (by simpa using h))
    obtain ⟨bs, cs, rfl⟩ := List.append_of_mem hn
    have hpool : Pool regionEnd region (as ++ m :: bs ++ n :: cs) := by simpa using h
    exact hpool.disjoint hE hx

theorem Bus.Ok.pending_pool {regionEnd : Nat} {b : Bus} (h : b.Ok regionEnd) :
    Pool regionEnd b.region b.pending := by
  obtain ⟨old, done, todo, batch, rest, hinv⟩ := h
  exact hinv.pending_eq ▸ hinv.pool

namespace Shared

variable {regionEnd : Nat} {s s' : Shared}

theorem init_ok (hpos : 0 < regionEnd) : Shared.init.Ok regionEnd :=
  ⟨Bus.init_ok hpos, fun _ => trivial⟩

theorem Ok.apart (hE : regionEnd % 4 = 0) (h : s.Ok regionEnd) : s.Apart regionEnd := by
  have hpool := h.bus.pending_pool
  exact ⟨Pool.pairwise hE [] hpool, fun m hm x hx => (hpool.inside hE hm hx).1⟩

/-- Entering a producer touches no other one. -/
theorem forall_enter {P : Producer → Prop} (h : ∀ q, P (s.producers q)) {p : Nat} {c : Producer}
    (hc : P c) (q : Nat) : P ((s.enter p c).producers q) := by
  by_cases hq : q = p
  · subst hq; simpa [Shared.enter] using hc
  · simpa [Shared.enter, hq] using h q

theorem Ok.enter (h : s.Ok regionEnd) {p : Nat} {c : Producer} (hc : c.Ok regionEnd) :
    (s.enter p c).Ok regionEnd := ⟨h.bus, forall_enter h.producers hc⟩

theorem Ok.with_bus (h : s.Ok regionEnd) {bus : Bus} (hb : bus.Ok regionEnd) :
    ({ s with bus } : Shared).Ok regionEnd := ⟨hb, h.producers⟩

theorem loadRead_cases {p payloadSize : Nat}
    (h : s.step regionEnd (.loadRead p payloadSize) = some s') :
    s' = s ∨ payloadSize ≤ maxMessageSize ∧
      s' = s.enter p (.readLoaded payloadSize s.bus.region.readPtr) := by
  simp only [step] at h
  split at h
  case h_2 => cases h
  case h_1 =>
    split at h <;> cases h
    case isTrue => exact .inl rfl
    case isFalse hsize => exact .inr ⟨Nat.not_lt.mp hsize, rfl⟩

theorem loadAlloc_cases {p : Nat} (h : s.step regionEnd (.loadAlloc p) = some s') :
    ∃ payloadSize readHand, s.producers p = .readLoaded payloadSize readHand ∧
      s' = s.enter p (.allocLoaded payloadSize readHand s.bus.region.allocPtr) := by
  simp only [step] at h
  split at h <;> cases h
  exact ⟨_, _, ‹_›, rfl⟩

/-- The exchange finds no room, or reserves a message, or leaves the hand of this moment. -/
theorem exchange_cases {p : Nat} {spurious : Bool}
    (h : s.step regionEnd (.exchange p spurious) = some s') :
    ∃ payloadSize readHand allocHand,
      s.producers p = .allocLoaded payloadSize readHand allocHand ∧
      (s' = s.enter p .idle ∨
        (spurious = false ∧ s.bus.region.allocPtr = allocHand ∧
          (place regionEnd readHand allocHand (allocSizeOf payloadSize)).isSome = true ∧
          ∃ bus, s.bus.reserve regionEnd readHand payloadSize = some bus ∧
            s' = ({ s with bus } : Shared).enter p (.exchanged s.bus.messages.length)) ∨
        s' = s.enter p (.allocLoaded payloadSize readHand s.bus.region.allocPtr)) := by
  simp only [step] at h
  split at h
  case h_2 => cases h
  case h_1 payloadSize readHand allocHand hp =>
    refine ⟨_, _, _, hp, ?_⟩
    split at h
    case h_1 => cases h; exact .inl rfl
    case h_2 hplace =>
      split at h
      case isFalse => cases h; exact .inr (.inr rfl)
      case isTrue hgo =>
        obtain ⟨bus, hb, rfl⟩ := Option.map_eq_some_iff.mp h
        exact .inr (.inl ⟨hgo.1, hgo.2, by rw [hplace]; rfl, bus, hb, rfl⟩)

theorem storeHead_cases {p : Nat} (h : s.step regionEnd (.storeHead p) = some s') :
    ∃ i bus, s.bus.storeHead i = some bus ∧
      s' = ({ s with bus } : Shared).enter p .idle := by
  simp only [step] at h
  split at h
  case h_2 => cases h
  case h_1 i _ =>
    obtain ⟨bus, hb, rfl⟩ := Option.map_eq_some_iff.mp h
    exact ⟨i, bus, hb, rfl⟩

/-- Every access keeps the invariant, a stale `compare_exchange` apart. -/
theorem Ok.step (hE : regionEnd % 4 = 0) {access : Access} (hfits : access.Fits regionEnd)
    (hfresh : access.Fresh regionEnd s) (h : s.Ok regionEnd)
    (hs : s.step regionEnd access = some s') : s'.Ok regionEnd := by
  cases access with
  | loadRead p payloadSize =>
    rcases loadRead_cases hs with rfl | ⟨hsize, rfl⟩
    · exact h
    · exact h.enter ⟨hsize, hfits, h.bus.pending_pool.read_lt⟩
  | loadAlloc p =>
    obtain ⟨payloadSize, readHand, hp, rfl⟩ := loadAlloc_cases hs
    have hprod := h.producers p
    rw [hp] at hprod
    exact h.enter hprod
  | exchange p spurious =>
    obtain ⟨payloadSize, readHand, allocHand, hp, hs⟩ := exchange_cases hs
    have hprod := h.producers p
    rw [hp] at hprod
    rcases hs with rfl | ⟨rfl, hhand, hplace, bus, hb, rfl⟩ | rfl
    · exact h.enter trivial
    · simp only [Access.Fresh, Producer.RoomLeft, hp] at hfresh
      obtain ⟨old, done, todo, batch, rest, hinv⟩ := h.bus
      have hroom := hfresh hhand hplace
      rw [← hhand] at hroom
      obtain ⟨m, hm⟩ := hinv.reserve hE hprod.1 hprod.2.1 hprod.2.2 hroom hb
      exact (h.with_bus ⟨_, _, _, _, _, hm⟩).enter trivial
    · exact h.enter hprod
  | storeHead p =>
    obtain ⟨i, bus, hb, rfl⟩ := storeHead_cases hs
    exact (h.with_bus (h.bus.apply hE (.storeHead i) trivial hb)).enter trivial
  | write i o value =>
    obtain ⟨bus, hb, rfl⟩ := Option.map_eq_some_iff.mp hs
    exact h.with_bus (h.bus.apply hE (.write i o value) trivial hb)
  | commit i =>
    obtain ⟨bus, hb, rfl⟩ := Option.map_eq_some_iff.mp hs
    exact h.with_bus (h.bus.apply hE (.commit i) trivial hb)
  | consume =>
    obtain ⟨bus, hb, rfl⟩ := Option.map_eq_some_iff.mp hs
    exact h.with_bus (h.bus.apply hE .consume trivial hb)

end Shared

/-- In a run whose successful exchanges all find their room in the region as it is at that
moment, no slot is handed out twice. -/
theorem slots_apart_of_fresh {regionEnd : Nat} (hE : regionEnd % 4 = 0) (hpos : 0 < regionEnd)
    {accesses : List Access} (hfits : ∀ access ∈ accesses, access.Fits regionEnd)
    (hfresh : Runs.Along (Shared.step regionEnd) (Access.Fresh regionEnd) accesses .init)
    {s : Shared} (hrun : Shared.run regionEnd accesses .init = some s) : s.Apart regionEnd := by
  have hok : s.Ok regionEnd := Runs.invariant
    (fun access s s' hc hok hstep => Shared.Ok.step hE hc.1 hc.2 hok hstep)
    (hfresh.and_forall hfits) (Shared.init_ok hpos) hrun
  exact hok.apart hE

/-- One producer allocates, alone. -/
def allocateAlone (p payloadSize : Nat) : List Access :=
  [.loadRead p payloadSize, .loadAlloc p, .exchange p false, .storeHead p]

theorem slots_apart_of_fresh_sample :
    ∃ s, Shared.run 4032 (allocateAlone 0 100 ++ allocateAlone 1 20) .init = some s ∧
      s.bus.pending.length = 2 ∧ s.Apart 4032 := by
  have hfresh : Runs.Along (Shared.step 4032) (Access.Fresh 4032)
      (allocateAlone 0 100 ++ allocateAlone 1 20) .init := by decide
  obtain ⟨s, hrun⟩ := Option.isSome_iff_exists.mp
    (show (Shared.run 4032 (allocateAlone 0 100 ++ allocateAlone 1 20) .init).isSome by decide)
  have hlen : (Shared.run 4032 (allocateAlone 0 100 ++ allocateAlone 1 20) .init).map
      (·.bus.pending.length) = some 2 := by decide
  rw [hrun, Option.map_some, Option.some.injEq] at hlen
  exact ⟨s, hrun, hlen, slots_apart_of_fresh (by decide) (by decide) (by decide) hfresh hrun⟩

/-- Producer 0 loads the read hand. Before it goes on, two messages are allocated, the first is
consumed, and a third one wraps around. The old read hand then grants the room of the second. -/
def staleRun : List Access :=
  [.loadRead 0 1000] ++ allocateAlone 1 100 ++ [.commit 0] ++ allocateAlone 1 3892 ++
    List.replicate 10 .consume ++ allocateAlone 1 40 ++ [.loadAlloc 0, .exchange 0 false]

/-- Slots are handed out twice. -/
theorem slots_not_apart : ¬ ∀ accesses : List Access,
    (∀ access ∈ accesses, access.Fits 4032) → ∀ s, Shared.run 4032 accesses .init = some s →
      s.Apart 4032 := by
  intro hall
  obtain ⟨s, hrun⟩ := Option.isSome_iff_exists.mp
    (show (Shared.run 4032 staleRun .init).isSome by decide)
  have hapart := (hall staleRun (by decide) s hrun).1
  have hlap : (Shared.run 4032 staleRun .init).map (fun s =>
      decide (s.bus.pending.Pairwise fun m n => m.Covers 104 → ¬ n.Covers 104)) = some false := by
    decide
  rw [hrun, Option.map_some, Option.some.injEq, decide_eq_false_iff_not] at hlap
  exact hlap (hapart.imp fun h => h 104)

end Deeplog.Mpsc

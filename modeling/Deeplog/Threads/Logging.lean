import Deeplog.Threads.Arrival

/-!
# From threads to files

A `log_fabric` over an `mpsc_bus_handle`. Threads log while one of them retires: step by step,
`consume_messages` hands batches to the sinks. A record is in the file of every sink that had been
attached when it was retired and that lets it pass, exactly once, and in the order in which it was
put into its region.
-/

namespace Deeplog.Threads

open Cbor (Bytes)
open Codec (Sent Kind)
open Mpsc (Handle WholeBus)
open Pipeline (Environment FileDevice Known Chronicles)
open Sink (Backend Fabric FabricOp)

/-- The threads on their bus, with the fabric that retires what they log. -/
structure Logging where
  system : System
  fabric : Fabric FileDevice
  /-- what the call of `consume_messages` that is going on has passed to the sinks -/
  batches : List (List Bytes)
  /-- and what had been sent as that, with its regions -/
  gathered : List (Nat × Sent)

namespace Logging

inductive Op where
  | threads (op : Threads.Op) (h : op ≠ .consume)
  /-- the next step of `retire_log_records` -/
  | retire
  /-- a call by the thread that retires, which it makes between two calls -/
  | sinks (op : FabricOp Bus.Errc FileDevice)
      (h : ∀ batches consumed, op ≠ .retireLogRecords batches consumed)

def start (file : File) : Logging := ⟨.start file, .init, [], []⟩

section

variable (env : Environment)

/-- The batch that a step of `read_region` has passed on, if it has. -/
def gather (system : System) (s : Logging) : Logging :=
  match s.system.bus.reading with
  | none => { s with system }
  | some which =>
    let behind := (s.system.bus.parties which).delivered.length
    let batch := (system.bus.parties which).delivered.drop behind
    { s with
      system
      batches := if batch = [] then s.batches else s.batches ++ [batch]
      gathered := s.gathered ++ ((system.passedOn which).drop behind).map (which, ·) }

/-- What the call of `consume_messages` comes to when it ends. -/
def retired (s : Logging) : FabricOp Bus.Errc FileDevice := .retireLogRecords s.batches (.ok ())

def fabricStep (op : FabricOp Bus.Errc FileDevice) (s : Logging) : Logging :=
  { s with fabric := (s.fabric.step (FileDevice.file env.writer) env.deeppack op).2 }

def step (self : Handle) (op : Op) (s : Logging) : Option Logging :=
  match op with
  | .threads op _ =>
    (s.system.step env.dp env.partly self op).map fun system => { s with system }
  | .retire => (s.system.step env.dp env.partly self .consume).map fun system =>
    let s' := s.gather system
    match system.bus.reading with
    | none => { s'.fabricStep env s'.retired with batches := [], gathered := [] }
    | some _ => s'
  | .sinks op _ =>
    match s.system.bus.reading with
    | none => some (s.fabricStep env op)
    | some _ => none

abbrev run (self : Handle) : List Op → Logging → Option Logging := Runs.run (step env self)

/-- What a step is for the threads. -/
def Op.onSystem : Op → Option Threads.Op
  | .threads op _ => some op
  | .retire => some .consume
  | .sinks _ _ => none

/-- The call that ends with a step, with what it has passed to the sinks. -/
def ended (self : Handle) (op : Op) (s : Logging) : Option Logging :=
  match op with
  | .retire => (s.system.step env.dp env.partly self .consume).bind fun system =>
    match system.bus.reading with
    | none => some (s.gather system)
    | some _ => none
  | .threads _ _ | .sinks _ _ => none

/-- What a step is for the fabric. -/
def onFabric (self : Handle) (op : Op) (s : Logging) : List (FabricOp Bus.Errc FileDevice) :=
  match op with
  | .sinks op _ => [op]
  | op => (s.ended env self op).toList.map retired

/-- What a sink is told with a step. -/
def tells (self : Handle) (which : Nat) (op : Op) (s : Logging) : List (Nat × Sent) :=
  if (Keyed.lookup Sink.SinkFrontend.id which s.fabric.sinks).isSome then
    ((s.ended env self op).map gathered).getD []
  else []

/-- What a sink is told in a run: what has been retired while it was attached. -/
def told (self : Handle) (which : Nat) : List Op → Logging → List (Nat × Sent)
  | [], _ => []
  | op :: ops, s =>
    s.tells env self which op ++ (s.step env self op).elim [] (told self which ops)

/-- The calls of the fabric in a run. -/
def fabricOps (self : Handle) : List Op → Logging → List (FabricOp Bus.Errc FileDevice)
  | [], _ => []
  | op :: ops, s => s.onFabric env self op ++ (s.step env self op).elim [] (fabricOps self ops)

end

/-- Threads that log send what can be read again. -/
def Op.Valid (env : Environment) (knownTypes : Nat → Option Kind) (op : Op) : Prop :=
  ∀ inner ∈ op.onSystem, ∀ m ∈ inner.message, m.Valid env.dp knownTypes

/-- An exchange that succeeds would also be tried with the read hand of this moment. -/
def Op.Fresh (env : Environment) (self : Handle) (op : Op) (s : Logging) : Prop :=
  ∀ inner ∈ op.onSystem, inner.Fresh env.dp env.partly self s.system

/-- A sink is there whenever a call of `retire_log_records` ends. -/
def Attached (env : Environment) (self : Handle) (which : Nat) (op : Op) (s : Logging) : Prop :=
  (s.ended env self op).isSome → (Keyed.lookup Sink.SinkFrontend.id which s.fabric.sinks).isSome

/-- What has been passed to the sinks is what was sent. -/
structure Gathered (env : Environment) (knownTypes : Nat → Option Kind) (bus : Handle)
    (file : File) (s : Logging) : Prop where
  system : Ok env.dp knownTypes bus file s.system
  infos : (s.batches.map fun records => (env.deeppack.preparseMessages records).2).flatten =
    s.gathered.map fun m => m.2.info env.dp
  valid : ∀ m ∈ s.gathered, m.1 < bus.numRegions.toNat ∧ m.2.Valid env.dp knownTypes

/-! ## Steps -/

section Step

variable {env : Environment} {knownTypes : Nat → Option Kind} {self : Handle} {file : File}
  {s s' : Logging} {system : System} {op : Op}

theorem passedOn_valid (h : Ok env.dp knownTypes self file system) {which k : Nat} :
    ∀ m ∈ (system.passedOn which).drop k, m.Valid env.dp knownTypes := by
  intro m hm
  have hoccupied := h.occupied which
  obtain ⟨i, hi⟩ := List.getElem?_of_mem (List.mem_of_mem_take (List.mem_of_mem_drop hm))
  have hlt := hoccupied.length_eq ▸ (List.getElem?_eq_some_iff.mp hi).1
  exact (hoccupied.carried i m _ hi (List.getElem?_eq_getElem hlt)).sendable.valid

/-- A region that is not there has nothing to pass on. -/
theorem consume_beyond {which : Nat} (hreading : s.system.bus.reading = some which)
    (hbeyond : ¬which < self.numRegions.toNat)
    (hs : s.system.step env.dp env.partly self .consume = some system) :
    system = { s.system with bus := { s.system.bus with reading := none } } := by
  simp only [System.step, WholeBus.step, WholeBus.consume, hreading, if_neg hbeyond,
    Option.map_some, Option.some.injEq] at hs
  exact hs.symm

theorem Gathered.gather (hfit : WholeBus.Fit self file) (h : s.Gathered env knownTypes self file)
    (hs : s.system.step env.dp env.partly self .consume = some system) :
    (s.gather system).Gathered env knownTypes self file := by
  have hok : Ok env.dp knownTypes self file system :=
    h.system.step hfit (fun m hm => by cases hm)
      (fun access haccess => by cases haccess; trivial) hs
  unfold Logging.gather
  cases hreading : s.system.bus.reading with
  | none => exact ⟨hok, h.infos, h.valid⟩
  | some which =>
    dsimp only
    set behind := (s.system.bus.parties which).delivered.length with hbehind
    have hbatch : ((system.bus.parties which).delivered.drop behind).map
        (fun raw => (env.deeppack.preparseMessage raw).2) =
        ((system.passedOn which).drop behind).map (Sent.info env.dp) := by
      by_cases hwhich : which < self.numRegions.toNat
      · rw [List.map_drop, List.map_drop, hok.passedOn_infos hwhich]
      · obtain rfl := consume_beyond hreading hwhich hs
        simp [System.passedOn, hbehind]
    refine ⟨hok, ?_, fun m hm => ?_⟩
    · have hmore : (((system.passedOn which).drop behind).map (which, ·)).map
          (fun m => m.2.info env.dp) = ((system.passedOn which).drop behind).map
            (Sent.info env.dp) := by
        rw [List.map_map]
        rfl
      rw [List.map_append, ← h.infos, hmore, ← hbatch]
      split
      case isTrue hempty => simp [hempty]
      case isFalse => simp [Sink.Deeppack.preparseMessages]
    · rcases List.mem_append.mp hm with hm | hm
      · exact h.valid m hm
      · obtain ⟨sent, hsent, rfl⟩ := List.mem_map.mp hm
        refine ⟨?_, passedOn_valid hok sent hsent⟩
        by_contra hwhich
        obtain rfl := consume_beyond hreading hwhich hs
        simp [System.passedOn, hbehind] at hsent

/-- A call that ends has passed on what was sent. -/
theorem Gathered.ended (hfit : WholeBus.Fit self file) (h : s.Gathered env knownTypes self file)
    {last : Logging} (hlast : s.ended env self op = some last) :
    last.retired.messages env.deeppack = (last.gathered.map fun m => m.2.info env.dp) ∧
      ∀ m ∈ last.gathered, m.1 < self.numRegions.toNat ∧ m.2.Valid env.dp knownTypes := by
  cases op with
  | threads op hop => cases hlast
  | sinks op hop => cases hlast
  | retire =>
    obtain ⟨system, hs, hend⟩ := Option.bind_eq_some_iff.mp hlast
    have hgathered := h.gather hfit hs
    split at hend
    · cases hend
      exact ⟨hgathered.infos, hgathered.valid⟩
    · cases hend

/-- A step leaves the fabric as its own calls do. -/
theorem Gathered.step (hfit : WholeBus.Fit self file) (hvalid : op.Valid env knownTypes)
    (hfresh : op.Fresh env self s) (h : s.Gathered env knownTypes self file)
    (hs : s.step env self op = some s') :
    s'.Gathered env knownTypes self file ∧
      s'.fabric = (Runs.replies (Fabric.step (FileDevice.file env.writer) env.deeppack)
        (s.onFabric env self op) s.fabric).2 := by
  cases op with
  | threads op hop =>
    obtain ⟨system, hsystem, rfl⟩ := Option.map_eq_some_iff.mp hs
    exact ⟨⟨h.system.step hfit (hvalid op rfl) (hfresh op rfl) hsystem, h.infos, h.valid⟩, rfl⟩
  | retire =>
    obtain ⟨system, hsystem, rfl⟩ := Option.map_eq_some_iff.mp hs
    have hgathered := h.gather hfit hsystem
    have hsame : (s.gather system).fabric = s.fabric := by
      unfold Logging.gather
      split <;> rfl
    cases hreading : system.bus.reading with
    | none =>
      refine ⟨⟨hgathered.system, rfl, fun m hm => by cases hm⟩, ?_⟩
      simp only [onFabric, Logging.ended, hsystem, Option.bind_some, hreading, Option.toList_some,
        List.map_cons, List.map_nil, Runs.replies, fabricStep, hsame]
    | some which =>
      refine ⟨hgathered, ?_⟩
      simp only [onFabric, Logging.ended, hsystem, Option.bind_some, hreading, Option.toList_none,
        List.map_nil, Runs.replies, hsame]
  | sinks op hop =>
    simp only [Logging.step] at hs
    split at hs
    · cases hs
      exact ⟨⟨h.system, h.infos, h.valid⟩, rfl⟩
    · cases hs

/-- What a sink sees of a step is what it is told. -/
theorem Gathered.seen (hfit : WholeBus.Fit self file) (h : s.Gathered env knownTypes self file)
    (op : Op) (which : Nat) :
    Fabric.seen (FileDevice.file env.writer) env.deeppack which (s.onFabric env self op) s.fabric =
        ((s.tells env self which op).map fun m => m.2.info env.dp) ∧
      ∀ m ∈ s.tells env self which op,
        m.1 < self.numRegions.toNat ∧ m.2.Valid env.dp knownTypes := by
  cases hended : s.ended env self op with
  | none =>
    have htells : s.tells env self which op = [] := by
      rw [Logging.tells, hended]
      split <;> rfl
    rw [htells]
    refine ⟨?_, fun m hm => by cases hm⟩
    cases op with
    | threads op hop => rfl
    | retire =>
      rw [onFabric, hended]
      · rfl
      · intro op hop hcontra
        cases hcontra
    | sinks op hop =>
      have hnone : op.messages env.deeppack = [] := by
        cases op with
        | retireLogRecords batches consumed => exact absurd rfl (hop batches consumed)
        | _ => rfl
      simp only [onFabric, Fabric.seen, hnone, ite_self]
      rfl
  | some last =>
    obtain ⟨hmessages, hvalid⟩ := h.ended hfit hended
    have hfabric : s.onFabric env self op = [last.retired] := by
      cases op with
      | threads op hop => cases hended
      | retire =>
        rw [onFabric, hended]
        · rfl
        · intro op hop hcontra
          cases hcontra
      | sinks op hop => cases hended
    rw [Logging.tells, hended, hfabric]
    simp only [Fabric.seen, hmessages, List.append_nil, Option.map_some, Option.getD_some]
    split
    · exact ⟨rfl, hvalid⟩
    · exact ⟨rfl, fun m hm => by cases hm⟩

end Step

/-! ## The order of the messages -/

/-- Two pieces of a list that meet. -/
theorem drop_take_append {α : Type} (l : List α) {i j : Nat} (h : i ≤ j) :
    (l.take j).drop i ++ l.drop j = l.drop i := by
  obtain ⟨k, rfl⟩ := Nat.exists_eq_add_of_le h
  rw [List.drop_take, Nat.add_sub_cancel_left, ← List.drop_drop, List.take_append_drop]

/-- What comes from one region. -/
def ofRegion (r : Nat) (messages : List (Nat × Sent)) : List Sent :=
  (messages.filter fun m => m.1 = r).map Prod.snd

@[simp] theorem ofRegion_append (r : Nat) (ms ns : List (Nat × Sent)) :
    ofRegion r (ms ++ ns) = ofRegion r ms ++ ofRegion r ns := by
  simp [ofRegion]

@[simp] theorem ofRegion_map_self (r : Nat) (ms : List Sent) : ofRegion r (ms.map (r, ·)) = ms := by
  simp [ofRegion, List.filter_map, Function.comp_def]

theorem ofRegion_map_of_ne {r which : Nat} (hne : which ≠ r) (ms : List Sent) :
    ofRegion r (ms.map (which, ·)) = [] := by
  simp [ofRegion, List.filter_map, Function.comp_def, hne]

/-- Producers pass nothing on. -/
theorem producer_delivered {regionEnd : Nat} {t t' : Mpsc.Shared} {access : Mpsc.Access}
    (hproducer : access.OfProducer) (h : t.step regionEnd access = some t') :
    t'.bus.delivered = t.bus.delivered := by
  cases access with
  | loadRead p n =>
    rcases Mpsc.Shared.loadRead_cases h with rfl | ⟨-, rfl⟩ <;> rfl
  | loadAlloc p =>
    obtain ⟨n, readHand, -, rfl⟩ := Mpsc.Shared.loadAlloc_cases h
    rfl
  | exchange p spurious =>
    obtain ⟨n, readHand, allocHand, -, rfl | ⟨-, -, -, bus, hb, rfl⟩ | rfl⟩ :=
      Mpsc.Shared.exchange_cases h
    · rfl
    · obtain ⟨_, _, _, rfl⟩ := Mpsc.Bus.reserve_cases hb
      rfl
    · rfl
  | storeHead p =>
    obtain ⟨i, bus, hb, rfl⟩ := Mpsc.Shared.storeHead_cases h
    obtain ⟨_, _, _, rfl⟩ := Mpsc.Bus.storeHead_cases hb
    rfl
  | write i o value =>
    obtain ⟨bus, hb, rfl⟩ := Option.map_eq_some_iff.mp h
    obtain ⟨_, _, _, _, rfl⟩ := Mpsc.Bus.write_cases hb
    rfl
  | commit i =>
    obtain ⟨bus, hb, rfl⟩ := Option.map_eq_some_iff.mp h
    obtain ⟨_, _, _, rfl⟩ := Mpsc.Bus.commit_cases hb
    rfl
  | consume => exact hproducer.elim

section Order

variable {env : Environment} {knownTypes : Nat → Option Kind} {self : Handle} {file : File}
  {s s' : Logging} {system system' : System} {op : Op}

/-- Threads add to what has been sent. -/
theorem threads_sent {op : Threads.Op} (hop : op ≠ .consume)
    (hs : system.step env.dp env.partly self op = some system') (r : Nat) :
    system.sent r <+: system'.sent r ∧
      (system'.bus.parties r).delivered = (system.bus.parties r).delivered ∧
      system'.bus.reading = system.bus.reading := by
  cases op with
  | send p m spread =>
    simp only [System.step] at hs
    split at hs
    · split at hs <;> cases hs <;> exact ⟨List.prefix_rfl, rfl, rfl⟩
    · cases hs
  | next p spurious =>
    obtain ⟨⟨which, access⟩, hnext, hmap⟩ := Option.bind_eq_some_iff.mp hs
    obtain ⟨bus, hbus, rfl⟩ := Option.map_eq_some_iff.mp hmap
    simp only [WholeBus.step] at hbus
    split at hbus
    case isFalse => cases hbus
    case isTrue hin =>
      obtain ⟨t, ht, rfl⟩ := Option.map_eq_some_iff.mp hbus
      by_cases hne : r = which
      · subst hne
        simp only [System.enter, WholeBus.put, Function.update_self]
        exact ⟨List.prefix_append _ _, producer_delivered hin.2 ht, trivial⟩
      · simp only [System.enter, WholeBus.put, Function.update_of_ne hne]
        exact ⟨List.prefix_rfl, trivial, trivial⟩
  | createSpan request =>
    cases hs
    exact ⟨List.prefix_rfl, rfl, rfl⟩
  | consume => exact absurd rfl hop

/-- The consumer adds to what has been passed on of the region where it is. -/
theorem consume_delivered (hfit : WholeBus.Fit self file)
    (h : Ok env.dp knownTypes self file system)
    (hs : system.step env.dp env.partly self .consume = some system') (r : Nat) :
    system'.sent = system.sent ∧
      (system.bus.parties r).delivered <+: (system'.bus.parties r).delivered ∧
      (system.bus.reading ≠ some r →
        (system'.bus.parties r).delivered = (system.bus.parties r).delivered) := by
  obtain ⟨bus, hbus, rfl⟩ := Option.map_eq_some_iff.mp hs
  refine ⟨rfl, ?_⟩
  cases hreading : system.bus.reading with
  | none =>
    simp only [WholeBus.step, WholeBus.consume, hreading, Option.some.injEq] at hbus
    subst hbus
    exact ⟨List.prefix_rfl, fun _ => rfl⟩
  | some which =>
    by_cases hwhich : which < self.numRegions.toNat
    · simp only [WholeBus.step, WholeBus.consume, hreading, if_pos hwhich] at hbus
      obtain ⟨t, ht, rfl⟩ := Option.map_eq_some_iff.mp hbus
      obtain ⟨b, hb, rfl⟩ := Option.map_eq_some_iff.mp ht
      by_cases hne : r = which
      · subst hne
        refine ⟨?_, fun hother => absurd rfl hother⟩
        simp only [WholeBus.put, Function.update_self]
        obtain ⟨old, done, todo, batch, rest, hinv⟩ := (h.regions r hwhich).bus
        obtain ⟨_, _, _, _, _, _, -, hadvance⟩ := hinv.consume_step hfit.aligned
        cases hadvance.step.symm.trans hb
        exact hadvance.grows
      · simp only [WholeBus.put, Function.update_of_ne hne]
        exact ⟨List.prefix_rfl, fun _ => trivial⟩
    · simp only [WholeBus.step, WholeBus.consume, hreading, if_neg hwhich,
        Option.some.injEq] at hbus
      subst hbus
      exact ⟨List.prefix_rfl, fun _ => rfl⟩

/-- What has been gathered of a region are the messages that follow those of earlier calls. -/
structure InOrder (r base : Nat) (s : Logging) : Prop where
  base_le : base ≤ (s.system.bus.parties r).delivered.length
  gathered : ofRegion r s.gathered = (s.system.passedOn r).drop base

theorem InOrder.gather {r base : Nat} (hfit : WholeBus.Fit self file)
    (hok : Ok env.dp knownTypes self file s.system) (h : InOrder r base s)
    (hs : s.system.step env.dp env.partly self .consume = some system) :
    InOrder r base (s.gather system) := by
  obtain ⟨hsent, hgrows, hother⟩ := consume_delivered hfit hok hs r
  have hle := hgrows.length_le
  unfold Logging.gather
  cases hreading : s.system.bus.reading with
  | none =>
    have hsame := hother (by simp [hreading])
    exact ⟨h.base_le.trans hle, by simpa [System.passedOn, hsame, hsent] using h.gathered⟩
  | some which =>
    refine ⟨h.base_le.trans hle, ?_⟩
    by_cases hne : which = r
    · subst hne
      have hmeet := drop_take_append
        ((system.sent which).take (system.bus.parties which).delivered.length) h.base_le
      rw [List.take_take, Nat.min_eq_left hle] at hmeet
      simpa only [ofRegion_append, ofRegion_map_self, h.gathered, System.passedOn, hsent] using
        hmeet
    · have hsame := hother (by simpa [hreading] using hne)
      simp only [ofRegion_append, ofRegion_map_of_ne hne, List.append_nil, h.gathered,
        System.passedOn, hsent, hsame]

/-- A step tells a sink of the messages that follow those of earlier calls, and the next call goes
on behind them. -/
theorem InOrder.step {r base : Nat} (hfit : WholeBus.Fit self file)
    (hr : r < self.numRegions.toNat) (hok : Ok env.dp knownTypes self file s.system)
    (h : InOrder r base s) (hs : s.step env self op = some s') (which : Nat) :
    ∃ base', base ≤ base' ∧ InOrder r base' s' ∧ s.system.sent r <+: s'.system.sent r ∧
      (ofRegion r (s.tells env self which op)).Sublist (((s'.system.sent r).take base').drop base) ∧
      (Attached env self which op s → ofRegion r (s.tells env self which op) =
        ((s'.system.sent r).take base').drop base) := by
  have hnothing (hended : s.ended env self op = none) (l : List Sent) :
      (ofRegion r (s.tells env self which op)).Sublist ((l.take base).drop base) ∧
        (Attached env self which op s →
          ofRegion r (s.tells env self which op) = (l.take base).drop base) := by
    have htells : ofRegion r (s.tells env self which op) = (l.take base).drop base := by
      rw [tells, hended, Option.map_none, Option.getD_none, ite_self, List.drop_take, Nat.sub_self,
        List.take_zero]
      rfl
    exact ⟨htells ▸ .refl _, fun _ => htells⟩
  cases op with
  | threads op hop =>
    obtain ⟨system, hsystem, rfl⟩ := Option.map_eq_some_iff.mp hs
    obtain ⟨hsent, hsame, -⟩ := threads_sent hop hsystem r
    refine ⟨base, le_rfl, ⟨hsame ▸ h.base_le, ?_⟩, hsent, hnothing rfl _⟩
    obtain ⟨more, hmore⟩ := hsent
    have hle := hok.delivered_length_le hr
    simp only [h.gathered, System.passedOn, hsame, ← hmore, List.take_append_of_le_length hle]
  | retire =>
    obtain ⟨system, hsystem, rfl⟩ := Option.map_eq_some_iff.mp hs
    have hgathered := h.gather hfit hok hsystem
    obtain ⟨hsent, -, -⟩ := consume_delivered hfit hok hsystem r
    have hsystem' : (s.gather system).system = system := by
      unfold Logging.gather
      split <;> rfl
    cases hreading : system.bus.reading with
    | none =>
      refine ⟨(system.bus.parties r).delivered.length, ?_, ⟨?_, ?_⟩, ?_, ?_⟩
      · have hle := hgathered.base_le
        rwa [hsystem'] at hle
      · simp only [fabricStep, hsystem', le_refl]
      · simp [fabricStep, hsystem', ofRegion, System.passedOn]
      · simp only [fabricStep, hsystem', hsent, List.prefix_rfl]
      · have hended : s.ended env self .retire = some (s.gather system) := by
          simp only [Logging.ended, hsystem, Option.bind_some, hreading]
        have hlast := hgathered.gathered
        rw [hsystem', System.passedOn] at hlast
        simp only [fabricStep, hsystem']
        rw [tells, Attached, hended, Option.map_some, Option.getD_some, ← hlast]
        constructor
        · split
          · exact .refl _
          · exact List.nil_sublist _
        · exact fun hattached => by rw [if_pos (hattached rfl)]
    | some next =>
      refine ⟨base, le_rfl, hgathered, ?_, hnothing ?_ _⟩
      · simp only [hsystem', hsent, List.prefix_rfl]
      · simp only [Logging.ended, hsystem, Option.bind_some, hreading]
  | sinks op hop =>
    simp only [Logging.step] at hs
    split at hs
    · cases hs
      exact ⟨base, le_rfl, ⟨h.base_le, h.gathered⟩, List.prefix_rfl, hnothing rfl _⟩
    · cases hs

/-- Between two calls nothing has been gathered. -/
theorem idle_step (h : s.system.bus.reading = none → s.gathered = [])
    (hs : s.step env self op = some s') :
    s'.system.bus.reading = none → s'.gathered = [] := by
  intro hidle
  cases op with
  | threads op hop =>
    obtain ⟨system, hsystem, rfl⟩ := Option.map_eq_some_iff.mp hs
    obtain ⟨-, -, hreading⟩ := threads_sent hop hsystem 0
    exact h (hreading.symm.trans hidle)
  | retire =>
    obtain ⟨system, hsystem, rfl⟩ := Option.map_eq_some_iff.mp hs
    have hsystem' : (s.gather system).system = system := by
      unfold Logging.gather
      split <;> rfl
    cases hreading : system.bus.reading with
    | none => rfl
    | some next =>
      simp only [hreading, hsystem'] at hidle
      cases hidle
  | sinks op hop =>
    simp only [Logging.step] at hs
    split at hs
    · cases hs
      exact h hidle
    · cases hs

end Order

/-! ## Runs -/

section Run

variable {env : Environment} {knownTypes : Nat → Option Kind} {self : Handle} {file : File}
  {s s' : Logging} {ops : List Op}

theorem idle_run (h : s.system.bus.reading = none → s.gathered = [])
    (hrun : s.run env self ops = some s') : s'.system.bus.reading = none → s'.gathered = [] := by
  have hstep : ∀ (op : Op) (t t' : Logging), True →
      (t.system.bus.reading = none → t.gathered = []) → t.step env self op = some t' →
      t'.system.bus.reading = none → t'.gathered = [] := fun _ _ _ _ ht hs => idle_step ht hs
  exact Runs.invariant hstep (.of_forall fun _ _ _ => trivial) h hrun

/-- A run is one of the fabric, in which a sink sees what it is told. -/
theorem Gathered.run (hfit : WholeBus.Fit self file) (hvalid : ∀ op ∈ ops, op.Valid env knownTypes)
    (hfresh : Runs.Along (Logging.step env self) (Op.Fresh env self) ops s)
    (h : s.Gathered env knownTypes self file) (hrun : s.run env self ops = some s') (which : Nat) :
    s'.fabric = (Runs.replies (Fabric.step (FileDevice.file env.writer) env.deeppack)
        (s.fabricOps env self ops) s.fabric).2 ∧
      Fabric.seen (FileDevice.file env.writer) env.deeppack which (s.fabricOps env self ops)
        s.fabric = ((s.told env self which ops).map fun m => m.2.info env.dp) ∧
      ∀ m ∈ s.told env self which ops,
        m.1 < self.numRegions.toNat ∧ m.2.Valid env.dp knownTypes := by
  induction ops generalizing s with
  | nil =>
    cases hrun
    exact ⟨rfl, rfl, fun m hm => absurd hm List.not_mem_nil⟩
  | cons op ops ih =>
    obtain ⟨s₁, hstep, hrest⟩ := Runs.run_cons_eq_some.mp hrun
    obtain ⟨hop, hops⟩ := List.forall_mem_cons.mp hvalid
    obtain ⟨hgathered, hfabric⟩ := h.step hfit hop hfresh.1 hstep
    obtain ⟨hseen, htells⟩ := h.seen hfit op which
    obtain ⟨hend, hmore, htold⟩ := ih hops (hfresh.2 s₁ hstep) hgathered hrest
    rw [hfabric] at hend hmore
    simp only [fabricOps, told, hstep, Option.elim_some, Runs.replies_append, Fabric.seen_append,
      List.map_append, hseen, hmore]
    refine ⟨hend, trivial, fun m hm => ?_⟩
    rcases List.mem_append.mp hm with hm | hm
    · exact htells m hm
    · exact htold m hm

/-- What a sink is told of a region are messages that were sent there, once each and in order; and
all that has been passed on, if the sink is there for it. -/
theorem InOrder.run {r base : Nat} (hfit : WholeBus.Fit self file) (hr : r < self.numRegions.toNat)
    (hvalid : ∀ op ∈ ops, op.Valid env knownTypes)
    (hfresh : Runs.Along (Logging.step env self) (Op.Fresh env self) ops s)
    (hgathered : s.Gathered env knownTypes self file) (h : InOrder r base s)
    (hrun : s.run env self ops = some s') (which : Nat) :
    ∃ base', base ≤ base' ∧ InOrder r base' s' ∧ s.system.sent r <+: s'.system.sent r ∧
      (ofRegion r (s.told env self which ops)).Sublist ((s'.system.sent r).drop base) ∧
      (Runs.Along (Logging.step env self) (Attached env self which) ops s →
        ofRegion r (s.told env self which ops) = ((s'.system.sent r).take base').drop base) := by
  induction ops generalizing s base with
  | nil =>
    cases hrun
    exact ⟨base, le_rfl, h, List.prefix_rfl, List.nil_sublist _, fun _ => by
      simp [told, ofRegion]⟩
  | cons op ops ih =>
    obtain ⟨s₁, hstep, hrest⟩ := Runs.run_cons_eq_some.mp hrun
    obtain ⟨hop, hops⟩ := List.forall_mem_cons.mp hvalid
    obtain ⟨hgathered', -⟩ := hgathered.step hfit hop hfresh.1 hstep
    obtain ⟨base₁, hle, horder, hsent, hfirst, hwhole⟩ :=
      h.step hfit hr hgathered.system hstep which
    obtain ⟨base', hle', hend, hmore, hsub, hall⟩ :=
      ih hops (hfresh.2 s₁ hstep) hgathered' horder hrest
    have htake : (s₁.system.sent r).take base₁ = (s'.system.sent r).take base₁ := by
      obtain ⟨rest, hrest⟩ := hmore
      have hlength := horder.base_le.trans (hgathered'.system.delivered_length_le hr)
      rw [← hrest, List.take_append_of_le_length hlength]
    rw [htake] at hfirst hwhole
    have htold : ofRegion r (s.told env self which (op :: ops)) =
        ofRegion r (s.tells env self which op) ++ ofRegion r (s₁.told env self which ops) := by
      rw [told, hstep, Option.elim_some, ofRegion_append]
    refine ⟨base', hle.trans hle', hend, hsent.trans hmore, ?_, fun hattached => ?_⟩
    · rw [htold, ← drop_take_append (s'.system.sent r) hle]
      exact hfirst.append hsub
    · rw [htold, hwhole hattached.1, hall (hattached.2 s₁ hstep)]
      have hmeet := drop_take_append ((s'.system.sent r).take base') hle
      rwa [List.take_take, Nat.min_eq_left hle'] at hmeet

theorem mem_fabricOps {op : FabricOp Bus.Errc FileDevice} (h : op ∈ s.fabricOps env self ops) :
    (∃ batches consumed, op = .retireLogRecords batches consumed) ∨ ∃ hop, .sinks op hop ∈ ops := by
  induction ops generalizing s with
  | nil => cases h
  | cons first ops ih =>
    rcases List.mem_append.mp h with h | h
    · cases first with
      | sinks other hother =>
        obtain rfl := List.mem_singleton.mp h
        exact .inr ⟨hother, List.mem_cons_self⟩
      | threads inner hinner =>
        obtain ⟨last, -, rfl⟩ := List.mem_map.mp h
        exact .inl ⟨_, _, rfl⟩
      | retire =>
        obtain ⟨last, -, rfl⟩ := List.mem_map.mp h
        exact .inl ⟨_, _, rfl⟩
    · cases hstep : s.step env self first with
      | none =>
        rw [hstep] at h
        cases h
      | some s₁ =>
        rw [hstep] at h
        rcases ih h with hretired | ⟨hop, hmem⟩
        · exact .inl hretired
        · exact .inr ⟨hop, List.mem_cons_of_mem _ hmem⟩

theorem not_mem_fabricOps {which : Nat} (h : ∀ hop, .sinks (.clearLastStatus which) hop ∉ ops) :
    .clearLastStatus which ∉ s.fabricOps env self ops := by
  intro hmem
  rcases mem_fabricOps hmem with ⟨_, _, hretired⟩ | ⟨hop, hmem⟩
  · cases hretired
  · exact h hop hmem

/-- What a step is for the threads. -/
theorem step_onSystem {op : Op} (hs : s.step env self op = some s') :
    op.onSystem.elim (s'.system = s.system) fun inner =>
      s.system.step env.dp env.partly self inner = some s'.system := by
  cases op with
  | threads op hop =>
    obtain ⟨system, hsystem, rfl⟩ := Option.map_eq_some_iff.mp hs
    exact hsystem
  | retire =>
    obtain ⟨system, hsystem, rfl⟩ := Option.map_eq_some_iff.mp hs
    have hgather : (s.gather system).system = system := by
      unfold Logging.gather
      split <;> rfl
    simp only [Op.onSystem, Option.elim_some]
    cases hreading : system.bus.reading with
    | none => simpa only [fabricStep, hgather] using hsystem
    | some next => simpa only [hgather] using hsystem
  | sinks op hop =>
    simp only [Logging.step] at hs
    split at hs
    · cases hs
      rfl
    · cases hs

/-- A run is one of the threads. -/
theorem run_onSystem (hfresh : Runs.Along (Logging.step env self) (Op.Fresh env self) ops s)
    (hrun : s.run env self ops = some s') :
    s.system.run env.dp env.partly self (ops.filterMap Op.onSystem) = some s'.system ∧
      Runs.Along (System.step env.dp env.partly self) (Threads.Op.Fresh env.dp env.partly self)
        (ops.filterMap Op.onSystem) s.system := by
  induction ops generalizing s with
  | nil =>
    cases hrun
    exact ⟨rfl, trivial⟩
  | cons op ops ih =>
    obtain ⟨s₁, hstep, hrest⟩ := Runs.run_cons_eq_some.mp hrun
    obtain ⟨hmore, halong⟩ := ih (hfresh.2 s₁ hstep) hrest
    have hsystem := step_onSystem hstep
    cases hop : op.onSystem with
    | none =>
      rw [hop, Option.elim_none] at hsystem
      rw [List.filterMap_cons_none hop, ← hsystem]
      exact ⟨hmore, halong⟩
    | some inner =>
      rw [hop, Option.elim_some] at hsystem
      rw [List.filterMap_cons_some hop]
      refine ⟨Runs.run_cons_eq_some.mpr ⟨s₁.system, hsystem, hmore⟩, hfresh.1 inner hop, ?_⟩
      intro system hother
      cases hsystem.symm.trans hother
      exact halong

end Run

end Logging

end Deeplog.Threads

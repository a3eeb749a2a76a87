import Deeplog.Lib.Keyed
import Deeplog.Lib.Runs
import Deeplog.Sink.Fabric

/-!
# The sinks of a fabric over their lifetime

`log_fabric_base` owns sinks in a vector, which its operations search by address and which every
`sync_sinks` reorders. What a fabric is for does not depend on that order: each sink has one owner
at a time and goes its own way. A sink that `destroy_sink` accepts has missed nothing of what
has been retired while it was attached.
-/

namespace Deeplog.Sink

open Cbor (Bytes)
open Keyed (lookup Distinct)

/-- What a backend answers to `finalize`, besides. -/
structure SinkBackend (β : Type) extends OutputBuffer β where
  finalize : β → Bool × β

namespace SinkFrontend

variable {β : Type} (out : SinkBackend β)

/-- A sink that has just been made. -/
def new (id threshold : Nat) (backend : β) : SinkFrontend β where
  id
  threshold
  lastStatus := false
  backend
  appended := []
  offered := []

def tryFinalize (s : SinkFrontend β) : Bool × SinkFrontend β :=
  if !s.isActive then (false, s)
  else
    match out.finalize s.backend with
    | (true, backend) => (true, { s with backend, threshold := disableThreshold })
    | (false, backend) => (false, { s with backend, lastStatus := true })

def clearLastStatus (s : SinkFrontend β) : SinkFrontend β := { s with lastStatus := false }

end SinkFrontend

inductive FabricErrc where
  | unknownSink
  | sinkFinalizationFailed
  | notEnoughMemory
  deriving DecidableEq

/-- Who has a sink, or who has called its destructor. -/
inductive Owner where
  | fabric
  | caller
  | removed
  /-- `destroy_sink` has removed it. -/
  | destroyed
  deriving DecidableEq

/-- A `log_fabric_base` with its sinks. Besides, where the other sinks are, and the thresholds and
backends with which sinks have been made. An address is used once. -/
structure Fabric (β : Type) where
  sinks : List (SinkFrontend β)
  others : Nat → Option (Owner × SinkFrontend β)
  created : List (Nat × β)

def Fabric.init {β : Type} : Fabric β := ⟨[], fun _ => none, []⟩

inductive FabricOp (ε β : Type) where
  /-- A caller makes a sink. -/
  | make (threshold : Nat) (backend : β)
  /-- `fits` tells whether there is memory for one more owner in the vector. -/
  | createSink (threshold : Nat) (backend : β) (fits : Bool)
  | attachSink (which : Nat) (fits : Bool)
  | destroySink (which : Nat)
  | removeSink (which : Nat)
  | releaseSink (which : Nat)
  | clearSinks
  /-- With the batches from the bus, and the result of `consume_messages`. -/
  | retireLogRecords (batches : List (List Bytes)) (consumed : Except ε Unit)
  | notifyEpochChanged
  | clearLastStatus (which : Nat)

inductive FabricReply (ε : Type) where
  | done
  | sink (which : Nat)
  | failed (e : FabricErrc)
  | retired (result : Except ε Unit)
  /-- The caller does not have the sink. -/
  | absent

namespace Fabric

variable {ε β : Type} (out : SinkBackend β) (dp : Deeppack)

/-- The next sink. -/
def fresh (threshold : Nat) (backend : β) (f : Fabric β) : SinkFrontend β :=
  .new f.created.length threshold backend

/-- A sink that is not in the vector has this owner. -/
def put (owner : Owner) (s : SinkFrontend β) (f : Fabric β) : Fabric β :=
  { f with others := Function.update f.others s.id (some (owner, s)) }

def make (threshold : Nat) (backend : β) (f : Fabric β) : FabricReply ε × Fabric β :=
  (.sink f.created.length,
    { f.put .caller (f.fresh threshold backend) with
      created := f.created ++ [(threshold, backend)] })

/-- `create_sink`, which attaches what it has made. -/
def createSink (threshold : Nat) (backend : β) (fits : Bool) (f : Fabric β) :
    FabricReply ε × Fabric β :=
  let sink := f.fresh threshold backend
  let created := f.created ++ [(threshold, backend)]
  if fits then (.sink sink.id, { f with sinks := f.sinks ++ [sink], created })
  else (.failed .notEnoughMemory, { f.put .removed sink with created })

/-- `attach_sink`: the owner of the caller is moved from if `push_back` succeeds. -/
def attachSink (which : Nat) (fits : Bool) (f : Fabric β) : FabricReply ε × Fabric β :=
  match f.others which with
  | some (.caller, sink) =>
    if fits then (.sink which,
      { f with sinks := f.sinks ++ [sink], others := Function.update f.others which none })
    else (.failed .notEnoughMemory, f)
  | _ => (.absent, f)

def destroySink (which : Nat) (f : Fabric β) : FabricReply ε × Fabric β :=
  match lookup SinkFrontend.id which f.sinks with
  | none => (.failed .unknownSink, f)
  | some sink =>
    if (sink.tryFinalize out).1 then
      (.done, { f.put .destroyed (sink.tryFinalize out).2 with
        sinks := Keyed.erase SinkFrontend.id which f.sinks })
    else
      (.failed .sinkFinalizationFailed, { f with
        sinks :=
          Keyed.modify SinkFrontend.id which (fun sink => (sink.tryFinalize out).2) f.sinks })

def removeSink (which : Nat) (f : Fabric β) : FabricReply ε × Fabric β :=
  let others := match lookup SinkFrontend.id which f.sinks with
    | none => f.others
    | some sink => Function.update f.others which (some (.removed, sink))
  (.done, { f with sinks := f.sinks.filter fun sink => sink.id ≠ which, others })

/-- `release_sink`, which returns its argument in any case. -/
def releaseSink (which : Nat) (f : Fabric β) : FabricReply ε × Fabric β :=
  match lookup SinkFrontend.id which f.sinks with
  | none => (.sink which, f)
  | some sink => (.sink which,
    { f.put .caller sink with sinks := Keyed.erase SinkFrontend.id which f.sinks })

def clearSinks (f : Fabric β) : FabricReply ε × Fabric β :=
  (.done, { f with
    sinks := []
    others := fun i => match lookup SinkFrontend.id i f.sinks with
      | none => f.others i
      | some sink => some (.removed, sink) })

def clearLastStatus (which : Nat) (f : Fabric β) : FabricReply ε × Fabric β :=
  match f.others which with
  | some (.caller, sink) => (.done, f.put .caller sink.clearLastStatus)
  | _ => (.done, { f with
    sinks := Keyed.modify SinkFrontend.id which SinkFrontend.clearLastStatus f.sinks })

def step : FabricOp ε β → Fabric β → FabricReply ε × Fabric β
  | .make threshold backend, f => f.make threshold backend
  | .createSink threshold backend fits, f => f.createSink threshold backend fits
  | .attachSink which fits, f => f.attachSink which fits
  | .destroySink which, f => f.destroySink out which
  | .removeSink which, f => f.removeSink which
  | .releaseSink which, f => f.releaseSink which
  | .clearSinks, f => f.clearSinks
  | .retireLogRecords batches consumed, f =>
    let (result, sinks) := Sink.retireLogRecords out.toOutputBuffer dp batches consumed f.sinks
    (.retired result, { f with sinks })
  | .notifyEpochChanged, f => (.done, { f with sinks := syncSinks out.toOutputBuffer f.sinks })
  | .clearLastStatus which, f => f.clearLastStatus which

end Fabric

/-! ## Sinks on their own -/

namespace SinkFrontend

variable {β : Type} (out : SinkBackend β) (dp : Deeppack)

/-- What `retire_log_records` does to one sink. -/
def retire {ε : Type} (batches : List (List Bytes)) (consumed : Except ε Unit)
    (s : SinkFrontend β) : SinkFrontend β :=
  let s := s.offerUntilRefused out.toOutputBuffer (batches.map dp.preparseMessages)
  match consumed with
  | .error _ => s
  | .ok () => (s.trySync out.toOutputBuffer).2

end SinkFrontend

/-- What fabrics are for: sinks at their addresses, each with its owner. -/
structure Registry (β : Type) where
  sinkAt : Nat → Option (Owner × SinkFrontend β)
  created : List (Nat × β)

namespace Registry

variable {ε β : Type} (out : SinkBackend β) (dp : Deeppack)

def set (which : Nat) (owner : Owner) (s : SinkFrontend β) (r : Registry β) : Registry β :=
  { r with sinkAt := Function.update r.sinkAt which (some (owner, s)) }

/-- A new sink at the next address. -/
def add (owner : Owner) (threshold : Nat) (backend : β) (r : Registry β) : Registry β where
  sinkAt := Function.update r.sinkAt r.created.length
    (some (owner, .new r.created.length threshold backend))
  created := r.created ++ [(threshold, backend)]

/-- A change of every sink that the fabric has. -/
def mapFabric (g : Owner × SinkFrontend β → Owner × SinkFrontend β) (r : Registry β) :
    Registry β :=
  { r with sinkAt := fun i => (r.sinkAt i).map fun entry =>
      if entry.1 = .fabric then g entry else entry }

def step : FabricOp ε β → Registry β → FabricReply ε × Registry β
  | .make threshold backend, r => (.sink r.created.length, r.add .caller threshold backend)
  | .createSink threshold backend fits, r =>
    if fits then (.sink r.created.length, r.add .fabric threshold backend)
    else (.failed .notEnoughMemory, r.add .removed threshold backend)
  | .attachSink which fits, r =>
    match r.sinkAt which with
    | some (.caller, s) =>
      if fits then (.sink which, r.set which .fabric s) else (.failed .notEnoughMemory, r)
    | _ => (.absent, r)
  | .destroySink which, r =>
    match r.sinkAt which with
    | some (.fabric, s) =>
      if (s.tryFinalize out).1 then (.done, r.set which .destroyed (s.tryFinalize out).2)
      else (.failed .sinkFinalizationFailed, r.set which .fabric (s.tryFinalize out).2)
    | _ => (.failed .unknownSink, r)
  | .removeSink which, r =>
    match r.sinkAt which with
    | some (.fabric, s) => (.done, r.set which .removed s)
    | _ => (.done, r)
  | .releaseSink which, r =>
    match r.sinkAt which with
    | some (.fabric, s) => (.sink which, r.set which .caller s)
    | _ => (.sink which, r)
  | .clearSinks, r => (.done, r.mapFabric fun entry => (.removed, entry.2))
  | .retireLogRecords batches consumed, r =>
    (.retired consumed, r.mapFabric fun entry => (.fabric, entry.2.retire out dp batches consumed))
  | .notifyEpochChanged, r =>
    (.done, r.mapFabric fun entry => (.fabric, (entry.2.trySync out.toOutputBuffer).2))
  | .clearLastStatus which, r =>
    match r.sinkAt which with
    | some (.fabric, s) => (.done, r.set which .fabric s.clearLastStatus)
    | some (.caller, s) => (.done, r.set which .caller s.clearLastStatus)
    | _ => (.done, r)

end Registry

/-! ## One sink after the other -/

namespace SinkFrontend

variable {β : Type} (out : SinkBackend β) (dp : Deeppack) (s : SinkFrontend β)

@[simp] theorem new_id (id threshold : Nat) (backend : β) :
    (new id threshold backend).id = id := rfl

@[simp] theorem clearLastStatus_id : s.clearLastStatus.id = s.id := rfl

@[simp] theorem tryFinalize_id : (s.tryFinalize out).2.id = s.id := by
  unfold tryFinalize
  split
  · rfl
  · split <;> rfl

@[simp] theorem trySync_id : (s.trySync out.toOutputBuffer).2.id = s.id :=
  (trySync_spec out.toOutputBuffer s).1.id

@[simp] theorem retire_id {ε : Type} (batches : List (List Bytes)) (consumed : Except ε Unit) :
    (s.retire out dp batches consumed).id = s.id := by
  have hoffered := (delivered_offerUntilRefused out.toOutputBuffer s
    (batches.map dp.preparseMessages)).2.id
  cases consumed with
  | error e => exact hoffered
  | ok => exact (trySync_id out _).trans hoffered

end SinkFrontend

section

variable {β : Type} (out : SinkBackend β) (dp : Deeppack)

theorem syncSinks_perm (sinks : List (SinkFrontend β)) :
    (syncSinks out.toOutputBuffer sinks).Perm
      (sinks.map fun s => (s.trySync out.toOutputBuffer).2) :=
  Partition.partition_append_perm _ _

/-- Where a sink stands in the vector does not matter to what it is given. -/
theorem retireLogRecords_perm {ε : Type} (batches : List (List Bytes)) (consumed : Except ε Unit)
    (sinks : List (SinkFrontend β)) :
    (retireLogRecords out.toOutputBuffer dp batches consumed sinks).2.Perm
      (sinks.map (SinkFrontend.retire out dp batches consumed)) := by
  have hdrained := drained_perm out.toOutputBuffer dp batches sinks
  cases consumed with
  | error e => exact hdrained
  | ok =>
    have hmapped := hdrained.map fun s => (s.trySync out.toOutputBuffer).2
    rw [List.map_map] at hmapped
    exact (syncSinks_perm out _).trans hmapped

theorem retireLogRecords_result {ε : Type} (batches : List (List Bytes))
    (consumed : Except ε Unit) (sinks : List (SinkFrontend β)) :
    (retireLogRecords out.toOutputBuffer dp batches consumed sinks).1 = consumed := by
  cases consumed <;> rfl

end

/-! ## The refinement -/

namespace Fabric

variable {β : Type} {f : Fabric β} {i : Nat} {s : SinkFrontend β}

/-- A sink in the vector belongs to the fabric. -/
def sinkAt (f : Fabric β) (i : Nat) : Option (Owner × SinkFrontend β) :=
  ((lookup SinkFrontend.id i f.sinks).map (Owner.fabric, ·)).or (f.others i)

def registry (f : Fabric β) : Registry β := ⟨f.sinkAt, f.created⟩

/-- Each sink is in one place, at its own address. -/
structure Valid (f : Fabric β) : Prop where
  distinct : Distinct SinkFrontend.id f.sinks
  apart : ∀ i s, lookup SinkFrontend.id i f.sinks = some s → f.others i = none
  others : ∀ i owner s, f.others i = some (owner, s) → s.id = i ∧ owner ≠ .fabric
  fresh : ∀ i, f.created.length ≤ i → f.sinkAt i = none

theorem Valid.init : (Fabric.init : Fabric β).Valid :=
  ⟨.nil, fun _ _ h => (by cases h), fun _ _ _ h => (by cases h), fun _ _ => rfl⟩

theorem sinkAt_of_lookup (h : lookup SinkFrontend.id i f.sinks = some s) :
    f.sinkAt i = some (.fabric, s) := by
  simp [sinkAt, h]

theorem sinkAt_of_none (h : lookup SinkFrontend.id i f.sinks = none) : f.sinkAt i = f.others i := by
  simp [sinkAt, h]

theorem sinkAt_eq_none :
    f.sinkAt i = none ↔ lookup SinkFrontend.id i f.sinks = none ∧ f.others i = none := by
  simp [sinkAt]

theorem Valid.lookup_iff (h : f.Valid) :
    lookup SinkFrontend.id i f.sinks = some s ↔ f.sinkAt i = some (.fabric, s) := by
  refine ⟨sinkAt_of_lookup, fun hat => ?_⟩
  cases hfound : lookup SinkFrontend.id i f.sinks with
  | none =>
    rw [sinkAt_of_none hfound] at hat
    exact absurd rfl (h.others i _ _ hat).2
  | some found =>
    rw [sinkAt_of_lookup hfound] at hat
    cases hat
    rfl

/-- What a registry finds, apart from the sinks of the fabric, is not in the vector. -/
theorem Valid.others_iff (h : f.Valid) {owner : Owner} (howner : owner ≠ .fabric) :
    f.others i = some (owner, s) ↔ f.sinkAt i = some (owner, s) := by
  cases hfound : lookup SinkFrontend.id i f.sinks with
  | none => rw [sinkAt_of_none hfound]
  | some found =>
    rw [h.apart i found hfound, sinkAt_of_lookup hfound]
    simp [howner.symm]

/-- A sink is where a fabric of this kind has it. -/
structure Placed (owner : Owner) (s : SinkFrontend β) (f : Fabric β) : Prop where
  lookup_eq : lookup SinkFrontend.id s.id f.sinks = if owner = .fabric then some s else none
  others_eq : f.others s.id = if owner = .fabric then none else some (owner, s)

variable {f' : Fabric β} {owner : Owner} {which : Nat}

theorem Placed.sinkAt_eq (h : Placed owner s f) : f.sinkAt s.id = some (owner, s) := by
  rw [sinkAt, h.lookup_eq, h.others_eq]
  by_cases howner : owner = .fabric
  · simp [howner]
  · simp [howner]

/-- A sink that has been put somewhere, while the others have stayed where they were. -/
theorem Valid.placed (h : f.Valid) (hplaced : Placed owner s f')
    (hdistinct : Distinct SinkFrontend.id f'.sinks)
    (hsinks : ∀ i ≠ s.id, lookup SinkFrontend.id i f'.sinks = lookup SinkFrontend.id i f.sinks)
    (hothers : ∀ i ≠ s.id, f'.others i = f.others i)
    (hcreated : f.created.length ≤ f'.created.length) (hlt : s.id < f'.created.length) :
    f'.Valid ∧ f'.sinkAt = Function.update f.sinkAt s.id (some (owner, s)) := by
  have hsame : ∀ i ≠ s.id, f'.sinkAt i = f.sinkAt i := fun i hi => by
    rw [sinkAt, sinkAt, hsinks i hi, hothers i hi]
  refine ⟨⟨hdistinct, fun i x hx => ?_, fun i o x hx => ?_, fun i hi => ?_⟩, ?_⟩
  · by_cases hi : i = s.id
    · subst hi
      rw [hplaced.lookup_eq] at hx
      rw [hplaced.others_eq]
      grind
    · rw [hothers i hi]
      exact h.apart i x (hsinks i hi ▸ hx)
  · by_cases hi : i = s.id
    · subst hi
      rw [hplaced.others_eq] at hx
      grind
    · exact h.others i o x (hothers i hi ▸ hx)
  · rw [hsame i (by omega)]
    exact h.fresh i (by omega)
  · funext i
    by_cases hi : i = s.id
    · rw [hi, Function.update_self, hplaced.sinkAt_eq]
    · rw [Function.update_of_ne hi, hsame i hi]

theorem Valid.lt_of_sinkAt (h : f.Valid) {entry : Owner × SinkFrontend β}
    (hat : f.sinkAt i = some entry) : i < f.created.length := by
  by_contra hge
  rw [h.fresh i (Nat.le_of_not_lt hge)] at hat
  cases hat

theorem Valid.id_of_sinkAt (h : f.Valid) {entry : Owner × SinkFrontend β}
    (hat : f.sinkAt i = some entry) : entry.2.id = i := by
  obtain ⟨owner, s⟩ := entry
  by_cases howner : owner = .fabric
  · subst howner
    exact (Keyed.mem_of_lookup (h.lookup_iff.mpr hat)).2
  · exact (h.others i owner s ((h.others_iff howner).mpr hat)).1

/-- A fabric and a registry answer alike, and the fabric is still such a registry. -/
def Agrees {ε : Type} (impl : FabricReply ε × Fabric β) (spec : FabricReply ε × Registry β) :
    Prop :=
  impl.1 = spec.1 ∧ impl.2.registry = spec.2 ∧ impl.2.Valid

variable {ε : Type} {reply : FabricReply ε}

theorem Valid.agrees_placed (h : f.Valid) (hplaced : Placed owner s f')
    (hdistinct : Distinct SinkFrontend.id f'.sinks)
    (hsinks : ∀ i ≠ s.id, lookup SinkFrontend.id i f'.sinks = lookup SinkFrontend.id i f.sinks)
    (hothers : ∀ i ≠ s.id, f'.others i = f.others i) (hcreated : f'.created = f.created)
    {entry : Owner × SinkFrontend β} (hat : f.sinkAt s.id = some entry) :
    Agrees (reply, f') (reply, f.registry.set s.id owner s) := by
  obtain ⟨hvalid, hsinkAt⟩ := h.placed hplaced hdistinct hsinks hothers
    (Nat.le_of_eq (congrArg List.length hcreated).symm) (hcreated ▸ h.lt_of_sinkAt hat)
  refine ⟨rfl, ?_, hvalid⟩
  rw [registry, hsinkAt, hcreated]
  rfl

theorem Valid.agrees_add (h : f.Valid) {threshold : Nat} {backend : β}
    (hplaced : Placed owner (f.fresh threshold backend) f')
    (hdistinct : Distinct SinkFrontend.id f'.sinks)
    (hsinks : ∀ i ≠ f.created.length,
      lookup SinkFrontend.id i f'.sinks = lookup SinkFrontend.id i f.sinks)
    (hothers : ∀ i ≠ f.created.length, f'.others i = f.others i)
    (hcreated : f'.created = f.created ++ [(threshold, backend)]) :
    Agrees (reply, f') (reply, f.registry.add owner threshold backend) := by
  obtain ⟨hvalid, hsinkAt⟩ := h.placed hplaced hdistinct hsinks hothers
    (by simp [hcreated]) (by simp [hcreated, Fabric.fresh])
  refine ⟨rfl, ?_, hvalid⟩
  rw [registry, hsinkAt, hcreated]
  rfl

theorem Valid.lookup_fresh (h : f.Valid) : lookup SinkFrontend.id f.created.length f.sinks = none :=
  (sinkAt_eq_none.mp (h.fresh _ (Nat.le_refl _))).1

theorem Valid.others_fresh (h : f.Valid) : f.others f.created.length = none :=
  (sinkAt_eq_none.mp (h.fresh _ (Nat.le_refl _))).2

/-- One more sink in the vector. -/
theorem placed_concat (hnone : lookup SinkFrontend.id s.id f.sinks = none)
    (hsinks : f'.sinks = f.sinks ++ [s]) (hothers : f'.others s.id = none) :
    Placed .fabric s f' := by
  refine ⟨?_, by simpa using hothers⟩
  rw [hsinks, Keyed.lookup_concat, hnone]
  simp

theorem lookup_concat_of_ne (hi : i ≠ s.id) : lookup SinkFrontend.id i (f.sinks ++ [s]) =
    lookup SinkFrontend.id i f.sinks := by
  rw [Keyed.lookup_concat, if_neg hi.symm, Option.or_none]

theorem Valid.step_make (h : f.Valid) (threshold : Nat) (backend : β) :
    Agrees (ε := ε) (f.make threshold backend)
      (.sink f.created.length, f.registry.add .caller threshold backend) := by
  refine h.agrees_add ⟨h.lookup_fresh, ?_⟩ h.distinct (fun _ _ => rfl) (fun i hi => ?_) rfl
  · exact Function.update_self ..
  · exact Function.update_of_ne hi ..

theorem Valid.step_createSink (h : f.Valid) (threshold : Nat) (backend : β) (fits : Bool) :
    Agrees (ε := ε) (f.createSink threshold backend fits)
      (if fits then (.sink f.created.length, f.registry.add .fabric threshold backend)
        else (.failed .notEnoughMemory, f.registry.add .removed threshold backend)) := by
  cases fits with
  | true =>
    refine h.agrees_add (placed_concat h.lookup_fresh rfl h.others_fresh)
      (h.distinct.concat h.lookup_fresh) (fun i hi => ?_) (fun _ _ => rfl) rfl
    exact lookup_concat_of_ne hi
  | false =>
    refine h.agrees_add ⟨h.lookup_fresh, ?_⟩ h.distinct (fun _ _ => rfl) (fun i hi => ?_) rfl
    · exact Function.update_self ..
    · exact Function.update_of_ne hi ..

theorem Valid.step_attachSink (h : f.Valid) (which : Nat) (fits : Bool) :
    Agrees (ε := ε) (f.attachSink which fits)
      (match f.registry.sinkAt which with
        | some (.caller, s) => if fits then (.sink which, f.registry.set which .fabric s)
          else (.failed .notEnoughMemory, f.registry)
        | _ => (.absent, f.registry)) := by
  by_cases hcaller : ∃ s, f.others which = some (.caller, s)
  · obtain ⟨s, hothers⟩ := hcaller
    have hat : f.sinkAt which = some (.caller, s) := (h.others_iff (by decide)).mp hothers
    obtain rfl : s.id = which := h.id_of_sinkAt hat
    have hnone : lookup SinkFrontend.id s.id f.sinks = none := by
      by_contra hsome
      obtain ⟨x, hx⟩ := Option.ne_none_iff_exists'.mp hsome
      rw [h.apart s.id x hx] at hothers
      cases hothers
    simp only [attachSink, hothers, registry, hat]
    cases fits with
    | false => exact ⟨rfl, rfl, h⟩
    | true =>
      refine h.agrees_placed (placed_concat hnone rfl (Function.update_self ..))
        (h.distinct.concat hnone) (fun i hi => lookup_concat_of_ne hi) (fun i hi => ?_) rfl hat
      exact Function.update_of_ne hi ..
  · have himpl : f.attachSink (ε := ε) which fits = (.absent, f) := by
      rw [attachSink]
      grind
    have hspec : ∀ s, f.sinkAt which ≠ some (.caller, s) := fun s hat =>
      hcaller ⟨s, (h.others_iff (by decide)).mpr hat⟩
    rw [himpl]
    split
    case h_1 s hat => exact absurd hat (hspec s)
    case h_2 => exact ⟨rfl, rfl, h⟩

/-- A sink that leaves the vector. -/
theorem Valid.agrees_erased (h : f.Valid) {x : SinkFrontend β}
    (hx : lookup SinkFrontend.id which f.sinks = some x) (hid : s.id = which)
    (howner : owner ≠ .fabric)
    (hsinks : f'.sinks = f.sinks.filter fun sink => sink.id ≠ which)
    (hothers : f'.others = Function.update f.others which (some (owner, s)))
    (hcreated : f'.created = f.created) :
    Agrees (reply, f') (reply, f.registry.set which owner s) := by
  subst hid
  refine h.agrees_placed ⟨?_, ?_⟩ ?_ (fun i hi => ?_) (fun i hi => ?_) hcreated
    (sinkAt_of_lookup hx)
  · rw [hsinks, Keyed.lookup_filter_ne, if_pos rfl, if_neg howner]
  · rw [hothers, Function.update_self, if_neg howner]
  · exact hsinks ▸ h.distinct.filter _
  · rw [hsinks, Keyed.lookup_filter_ne, if_neg hi]
  · rw [hothers, Function.update_of_ne hi]

/-- A sink that is changed in the vector. -/
theorem Valid.agrees_modified (h : f.Valid) {g : SinkFrontend β → SinkFrontend β}
    (hg : ∀ s, (g s).id = s.id) (hx : lookup SinkFrontend.id which f.sinks = some s) :
    Agrees (reply, { f with sinks := Keyed.modify SinkFrontend.id which g f.sinks })
      (reply, f.registry.set which .fabric (g s)) := by
  obtain rfl : s.id = which := (Keyed.mem_of_lookup hx).2
  rw [← hg s] at hx ⊢
  refine h.agrees_placed ⟨?_, ?_⟩ (h.distinct.modify hg) (fun i hi => ?_) (fun _ _ => rfl) rfl
    (sinkAt_of_lookup hx)
  · rw [Keyed.lookup_modify hg, if_pos rfl, hx]
    rfl
  · exact h.apart _ s hx
  · rw [Keyed.lookup_modify hg, if_neg hi]

/-- A change of every sink in the vector, which it may reorder. -/
theorem Valid.agrees_mapped (h : f.Valid) {sinks : List (SinkFrontend β)}
    {g : SinkFrontend β → SinkFrontend β} (hg : ∀ s, (g s).id = s.id)
    (hperm : sinks.Perm (f.sinks.map g)) :
    Agrees (reply, { f with sinks })
      (reply, f.registry.mapFabric fun entry => (.fabric, g entry.2)) := by
  have hdistinct : Distinct SinkFrontend.id (f.sinks.map g) := h.distinct.map fun s _ => hg s
  have hlookup : ∀ i, lookup SinkFrontend.id i sinks =
      (lookup SinkFrontend.id i f.sinks).map g := fun i => by
    rw [(hdistinct.perm hperm.symm).lookup_perm hperm, Keyed.lookup_map fun s _ => hg s]
  have hsinkAt : ∀ i, sinkAt { f with sinks } i =
      (f.sinkAt i).map fun entry => if entry.1 = .fabric then (.fabric, g entry.2) else entry := by
    intro i
    rw [sinkAt, sinkAt]
    simp only [hlookup]
    cases hfound : lookup SinkFrontend.id i f.sinks with
    | some s => simp
    | none =>
      cases hothers : f.others i with
      | none => simp
      | some entry => simp [(h.others i entry.1 entry.2 hothers).2]
  refine ⟨rfl, ?_, hdistinct.perm hperm.symm, fun i s hs => ?_, h.others, fun i hi => ?_⟩
  · rw [registry, Registry.mapFabric]
    congr 1
    exact funext hsinkAt
  · rw [hlookup] at hs
    obtain ⟨x, hx, -⟩ := Option.map_eq_some_iff.mp hs
    exact h.apart i x hx
  · rw [hsinkAt, h.fresh i hi, Option.map_none]

theorem Valid.step_clearSinks (h : f.Valid) : Agrees (ε := ε) f.clearSinks
    (.done, f.registry.mapFabric fun entry => (.removed, entry.2)) := by
  have hsinkAt : ∀ i, f.clearSinks (ε := ε).2.sinkAt i =
      (f.sinkAt i).map fun entry => if entry.1 = .fabric then (.removed, entry.2) else entry := by
    intro i
    simp only [clearSinks, sinkAt, Keyed.lookup_nil, Option.map_none, Option.none_or]
    cases hfound : lookup SinkFrontend.id i f.sinks with
    | some s => simp
    | none =>
      cases hothers : f.others i with
      | none => simp
      | some entry => simp [(h.others i entry.1 entry.2 hothers).2]
  refine ⟨rfl, ?_, .nil, fun _ _ hs => (by cases hs), fun i owner s hs => ?_, fun i hi => ?_⟩
  · rw [registry, Registry.mapFabric]
    congr 1
    exact funext hsinkAt
  · simp only [clearSinks] at hs
    split at hs
    case h_1 => exact h.others i owner s hs
    case h_2 x hx =>
      cases hs
      exact ⟨(Keyed.mem_of_lookup hx).2, by decide⟩
  · rw [hsinkAt, h.fresh i hi, Option.map_none]

/-- What is found at an address that is not one of the fabric's. -/
theorem Valid.not_fabric (h : f.Valid) (hnone : lookup SinkFrontend.id which f.sinks = none) :
    ∀ s, f.registry.sinkAt which ≠ some (.fabric, s) := fun s hat => by
  rw [h.lookup_iff.mpr hat] at hnone
  cases hnone

variable (out : SinkBackend β) (dp : Deeppack)

theorem Valid.step_destroySink (h : f.Valid) (which : Nat) :
    Agrees (ε := ε) (f.destroySink out which) (f.registry.step out dp (.destroySink which)) := by
  cases hfound : lookup SinkFrontend.id which f.sinks with
  | none =>
    have hnot := h.not_fabric hfound
    simp only [destroySink, hfound, Registry.step]
    exact ⟨rfl, rfl, h⟩
  | some s =>
    have hat : f.registry.sinkAt which = some (.fabric, s) := sinkAt_of_lookup hfound
    simp only [destroySink, hfound, Registry.step, hat]
    cases hfinalized : (s.tryFinalize out).1 with
    | true =>
      have hid : (s.tryFinalize out).2.id = which :=
        (s.tryFinalize_id out).trans (Keyed.mem_of_lookup hfound).2
      refine h.agrees_erased hfound hid (by decide) h.distinct.erase_eq_filter ?_ rfl
      rw [← hid]
      rfl
    | false => exact h.agrees_modified (fun s => s.tryFinalize_id out) hfound

theorem Valid.step_removeSink (h : f.Valid) (which : Nat) :
    Agrees (ε := ε) (f.removeSink which) (f.registry.step out dp (.removeSink which)) := by
  cases hfound : lookup SinkFrontend.id which f.sinks with
  | none =>
    have hnot := h.not_fabric hfound
    have hsame : f.sinks.filter (fun sink => sink.id ≠ which) = f.sinks :=
      List.filter_eq_self.mpr fun s hs => decide_eq_true (Keyed.lookup_eq_none.mp hfound s hs)
    simp only [removeSink, hfound, Registry.step, hsame]
    exact ⟨rfl, rfl, h⟩
  | some s =>
    have hat : f.registry.sinkAt which = some (.fabric, s) := sinkAt_of_lookup hfound
    simp only [removeSink, hfound, Registry.step, hat]
    exact h.agrees_erased hfound (Keyed.mem_of_lookup hfound).2 (by decide) rfl rfl rfl

theorem Valid.step_releaseSink (h : f.Valid) (which : Nat) :
    Agrees (ε := ε) (f.releaseSink which) (f.registry.step out dp (.releaseSink which)) := by
  cases hfound : lookup SinkFrontend.id which f.sinks with
  | none =>
    have hnot := h.not_fabric hfound
    simp only [releaseSink, hfound, Registry.step]
    exact ⟨rfl, rfl, h⟩
  | some s =>
    have hat : f.registry.sinkAt which = some (.fabric, s) := sinkAt_of_lookup hfound
    have hid : s.id = which := (Keyed.mem_of_lookup hfound).2
    simp only [releaseSink, hfound, Registry.step, hat]
    refine h.agrees_erased hfound hid (by decide) h.distinct.erase_eq_filter ?_ rfl
    rw [← hid]
    rfl

theorem Valid.step_clearLastStatus (h : f.Valid) (which : Nat) :
    Agrees (ε := ε) (f.clearLastStatus which)
      (f.registry.step out dp (.clearLastStatus which)) := by
  rw [Registry.step]
  cases hfound : lookup SinkFrontend.id which f.sinks with
  | some s =>
    have hat : f.registry.sinkAt which = some (.fabric, s) := sinkAt_of_lookup hfound
    have hothers := h.apart which s hfound
    simp only [hat, clearLastStatus, hothers]
    exact h.agrees_modified SinkFrontend.clearLastStatus_id hfound
  | none =>
    have hnot := h.not_fabric hfound
    have hsame : Keyed.modify SinkFrontend.id which SinkFrontend.clearLastStatus f.sinks =
        f.sinks := Keyed.modify_of_lookup_none hfound
    have hothers : f.registry.sinkAt which = f.others which := sinkAt_of_none hfound
    by_cases hcaller : ∃ s, f.others which = some (.caller, s)
    · obtain ⟨s, hs⟩ := hcaller
      obtain rfl : s.id = which := (h.others which _ s hs).1
      simp only [clearLastStatus, hothers, hs]
      refine h.agrees_placed (s := s.clearLastStatus) ⟨hfound, ?_⟩ h.distinct
        (fun _ _ => rfl) (fun i hi => ?_) rfl (hothers.trans hs)
      · exact Function.update_self ..
      · exact Function.update_of_ne hi ..
    · have himpl : f.clearLastStatus (ε := ε) which = (.done, f) := by
        rw [clearLastStatus]
        split
        case h_1 s hs => exact absurd ⟨s, hs⟩ hcaller
        case h_2 => rw [hsame]
      rw [himpl]
      split
      case h_1 s hat => exact absurd hat (hnot s)
      case h_2 s hat => exact absurd ⟨s, hothers ▸ hat⟩ hcaller
      case h_3 => exact ⟨rfl, rfl, h⟩

theorem Valid.step (h : f.Valid) (op : FabricOp ε β) :
    Agrees (f.step out dp op) (f.registry.step out dp op) := by
  cases op with
  | make threshold backend => exact h.step_make threshold backend
  | createSink threshold backend fits => exact h.step_createSink threshold backend fits
  | attachSink which fits => exact h.step_attachSink which fits
  | destroySink which => exact h.step_destroySink out dp which
  | removeSink which => exact h.step_removeSink out dp which
  | releaseSink which => exact h.step_releaseSink out dp which
  | clearSinks => exact h.step_clearSinks
  | retireLogRecords batches consumed =>
    have hresult := retireLogRecords_result out dp batches consumed f.sinks
    have hperm := retireLogRecords_perm out dp batches consumed f.sinks
    simp only [Fabric.step, hresult]
    exact h.agrees_mapped (SinkFrontend.retire_id out dp · batches consumed) hperm
  | notifyEpochChanged => exact h.agrees_mapped (SinkFrontend.trySync_id out) (syncSinks_perm out _)
  | clearLastStatus which => exact h.step_clearLastStatus out dp which

/-- A fabric that is this registry. -/
def Represents (f : Fabric β) (r : Registry β) : Prop := f.registry = r ∧ f.Valid

theorem step_represents (op : FabricOp ε β) (f : Fabric β) (r : Registry β) (_ : True)
    (h : Represents f r) : (f.step out dp op).1 = (r.step out dp op).1 ∧
      Represents (f.step out dp op).2 (r.step out dp op).2 := by
  obtain ⟨rfl, hvalid⟩ := h
  exact hvalid.step out dp op

theorem run_represents (ops : List (FabricOp ε β)) :
    let f := Runs.replies (step out dp) ops .init
    let r := Runs.replies (Registry.step out dp) ops ⟨fun _ => none, []⟩
    f.1 = r.1 ∧ Represents f.2 r.2 :=
  Runs.replies_refine (step_represents out dp) (fun _ _ => trivial) ⟨rfl, .init⟩

end Fabric

/-- The vector of a fabric answers every run as the registry does, in which a sink has one owner
and is alone at its address: in whatever order `sync_sinks` and the drains leave the vector, each
sink has been given what it would have been given without the others. -/
theorem fabric_refines_registry {ε β : Type} (out : SinkBackend β) (dp : Deeppack)
    (ops : List (FabricOp ε β)) :
    let f := Runs.replies (Fabric.step out dp) ops .init
    let r := Runs.replies (Registry.step out dp) ops ⟨fun _ => none, []⟩
    f.1 = r.1 ∧ f.2.registry = r.2 ∧ f.2.Valid :=
  Fabric.run_represents out dp ops

/-! ## What a sink has been given -/

/-- A backend holds bytes, and has finished with them, in a sense that its successful operations
respect. -/
structure Keeps {β : Type} (out : SinkBackend β) (Holds Finished : β → Bytes → Prop) : Prop where
  bulkWrite : ∀ {bytes bs b b'}, Holds b bytes → out.bulkWrite bs b = (true, b') →
    Holds b' (bytes ++ bs)
  syncOutput : ∀ {bytes b b'}, Holds b bytes → out.syncOutput b = (true, b') → Holds b' bytes
  finalize : ∀ {bytes b b'}, Holds b bytes → out.finalize b = (true, b') → Finished b' bytes

namespace SinkFrontend

variable {β : Type} {out : SinkBackend β} {Holds Finished : β → Bytes → Prop}
  {s s' : SinkFrontend β} {bytes : Bytes} {messages : List MessageInfo}

theorem not_isActive_of_lastStatus (h : s.lastStatus = true) : s.isActive = false := by
  simp [isActive, h]

theorem copyMessage_holds (hkeeps : Keeps out Holds Finished) {message : MessageInfo}
    (hs : Holds s.backend bytes) (h : s.copyMessage out.toOutputBuffer message = (true, s')) :
    Holds s'.backend (bytes ++ written s.threshold message) ∧ s'.threshold = s.threshold := by
  refine ⟨?_, (copyMessage_spec out.toOutputBuffer h).1.threshold⟩
  have hwrite : ∀ {bs s'}, s.bulkWrite out.toOutputBuffer bs = (true, s') →
      Holds s'.backend (bytes ++ bs) := by
    intro bs s' hbulk
    rcases hout : out.bulkWrite bs s.backend with ⟨ok, backend⟩
    simp only [bulkWrite, hout] at hbulk
    cases hbulk
    exact hkeeps.bulkWrite hs hout
  cases message with
  | record rawData timestamp severity =>
    by_cases hpasses : s.threshold ≤ severity
    · simp only [copyMessage, hpasses, if_true] at h
      simpa [written, Sink.copyMessage, hpasses] using hwrite h
    · simp only [copyMessage, hpasses, if_false] at h
      cases h
      simpa [written, Sink.copyMessage, hpasses] using hs
  | unknown rawData => exact hwrite h
  | spanStart rawData => exact hwrite h
  | spanEnd rawData => exact hwrite h
  | malformed rawData => exact hwrite h

theorem concateMessages_holds (hkeeps : Keeps out Holds Finished) (hs : Holds s.backend bytes)
    (h : s.concateMessages out.toOutputBuffer messages = (true, s')) :
    Holds s'.backend (bytes ++ passed s.threshold messages) := by
  induction messages generalizing s bytes with
  | nil =>
    cases h
    simpa [passed] using hs
  | cons message messages ih =>
    rw [concateMessages] at h
    rcases hcopy : s.copyMessage out.toOutputBuffer message with ⟨copied, s₁⟩
    rw [hcopy] at h
    cases copied with
    | false => cases h
    | true =>
      obtain ⟨hs₁, hthreshold⟩ := copyMessage_holds hkeeps hs hcopy
      have hrest := ih hs₁ h
      rw [hthreshold] at hrest
      simpa [← flatMap_written] using hrest

/-- A batch that is accepted is all there; a sink that refuses one is not active. -/
theorem offer_holds (hkeeps : Keeps out Holds Finished) {n : Nat} {ok : Bool}
    (h : s.offer out.toOutputBuffer n messages = (ok, s')) :
    (ok = false → s'.isActive = false) ∧ (ok = true → s.isActive = true ∧ ∀ bytes,
      Holds s.backend bytes → Holds s'.backend (bytes ++ passed s.threshold messages)) := by
  simp only [offer, tryConsume] at h
  cases hactive : s.isActive with
  | false =>
    rw [hactive] at h
    cases h
    exact ⟨fun _ => hactive, fun hok => (by cases hok)⟩
  | true =>
    rcases hcopy : s.concateMessages out.toOutputBuffer messages with ⟨copied, s₁⟩
    simp only [hactive, hcopy] at h
    cases copied with
    | false =>
      cases h
      exact ⟨fun _ => not_isActive_of_lastStatus rfl, fun hok => (by cases hok)⟩
    | true =>
      cases h
      refine ⟨fun hok => (by cases hok), fun _ => ⟨rfl, fun bytes hs => ?_⟩⟩
      have hall := concateMessages_holds hkeeps hs hcopy
      exact hall

theorem offer_threshold {n : Nat} {ok : Bool}
    (h : s.offer out.toOutputBuffer n messages = (ok, s')) : s'.threshold = s.threshold := by
  rcases hconsume : s.tryConsume out.toOutputBuffer n messages with ⟨_, s₁⟩
  rw [offer, hconsume] at h
  cases h
  exact (tryConsume_spec out.toOutputBuffer hconsume).1.threshold

theorem offerUntilRefused_holds (hkeeps : Keeps out Holds Finished)
    (batches : List (Nat × List MessageInfo))
    (hactive : (s.offerUntilRefused out.toOutputBuffer batches).isActive = true) :
    s.isActive = true ∧ ∀ bytes, Holds s.backend bytes →
      Holds (s.offerUntilRefused out.toOutputBuffer batches).backend
        (bytes ++ passed s.threshold (batches.map Prod.snd).flatten) := by
  induction batches generalizing s with
  | nil => exact ⟨hactive, fun _ hs => by simpa [offerUntilRefused, passed] using hs⟩
  | cons batch batches ih =>
    obtain ⟨n, messages⟩ := batch
    rcases hoffer : s.offer out.toOutputBuffer n messages with ⟨ok, s₁⟩
    obtain ⟨hrefused, haccepted⟩ := offer_holds hkeeps hoffer
    rw [offerUntilRefused, hoffer] at hactive ⊢
    cases ok with
    | false => exact absurd (hrefused rfl) (by simp [show s₁.isActive = true from hactive])
    | true =>
      obtain ⟨hs, hstep⟩ := haccepted rfl
      refine ⟨hs, fun bytes hbytes => ?_⟩
      have hrest := (ih hactive).2 _ (hstep bytes hbytes)
      rw [offer_threshold hoffer] at hrest
      simpa [passed_append] using hrest

/-- A sink that is active after a `try_sync` was so before. -/
theorem trySync_holds (hkeeps : Keeps out Holds Finished)
    (hactive : (s.trySync out.toOutputBuffer).2.isActive = true) :
    s.isActive = true ∧ ∀ bytes, Holds s.backend bytes →
      Holds (s.trySync out.toOutputBuffer).2.backend bytes := by
  rw [trySync] at hactive ⊢
  cases hs : s.isActive with
  | false => simp [hs] at hactive
  | true =>
    rcases hsync : out.syncOutput s.backend with ⟨ok, backend⟩
    simp only [hs, hsync] at hactive ⊢
    cases ok with
    | false => simp [isActive] at hactive
    | true => exact ⟨trivial, fun _ hbytes => hkeeps.syncOutput hbytes hsync⟩

theorem retire_holds (hkeeps : Keeps out Holds Finished) (dp : Deeppack) {ε : Type}
    {batches : List (List Bytes)} {consumed : Except ε Unit}
    (hactive : (s.retire out dp batches consumed).isActive = true) :
    s.isActive = true ∧ ∀ bytes, Holds s.backend bytes →
      Holds (s.retire out dp batches consumed).backend (bytes ++
        passed s.threshold (batches.map fun records =>
          (dp.preparseMessages records).2).flatten) := by
  have hbatches : (batches.map dp.preparseMessages).map Prod.snd =
      batches.map fun records => (dp.preparseMessages records).2 := by simp
  rw [← hbatches]
  cases consumed with
  | error e => exact offerUntilRefused_holds hkeeps _ hactive
  | ok =>
    obtain ⟨hoffered, hsync⟩ := trySync_holds hkeeps hactive
    obtain ⟨hs, hbytes⟩ := offerUntilRefused_holds hkeeps _ hoffered
    exact ⟨hs, fun bytes h => hsync _ (hbytes bytes h)⟩

variable (out) in
theorem trySync_threshold (s : SinkFrontend β) :
    (s.trySync out.toOutputBuffer).2.threshold = s.threshold :=
  (trySync_spec out.toOutputBuffer s).1.threshold

theorem retire_threshold (dp : Deeppack) {ε : Type} (batches : List (List Bytes))
    (consumed : Except ε Unit) (s : SinkFrontend β) :
    (s.retire out dp batches consumed).threshold = s.threshold := by
  have hoffered := (delivered_offerUntilRefused out.toOutputBuffer s
    (batches.map dp.preparseMessages)).1
  cases consumed with
  | error e => exact hoffered
  | ok => exact (trySync_threshold out _).trans hoffered

/-- A sink is finalised when it is active; one that cannot be is no longer active. -/
theorem tryFinalize_holds (hkeeps : Keeps out Holds Finished) (s : SinkFrontend β) :
    ((s.tryFinalize out).1 = false → (s.tryFinalize out).2.threshold = s.threshold ∧
      (s.tryFinalize out).2.isActive = false) ∧
    ((s.tryFinalize out).1 = true → s.isActive = true ∧ ∀ bytes, Holds s.backend bytes →
      Finished (s.tryFinalize out).2.backend bytes) := by
  rw [tryFinalize]
  cases hs : s.isActive with
  | false => simp [hs]
  | true =>
    rcases hout : out.finalize s.backend with ⟨ok, backend⟩
    cases ok with
    | false => simp [isActive]
    | true => simpa using fun bytes hbytes => hkeeps.finalize hbytes hout

end SinkFrontend

namespace FabricOp

variable {ε β : Type} (dp : Deeppack)

/-- What an operation has in store for the sinks of a fabric. -/
def messages : FabricOp ε β → List MessageInfo
  | .retireLogRecords batches _ =>
    (batches.map fun records => (dp.preparseMessages records).2).flatten
  | _ => []

/-- The sinks that it makes. -/
def made : FabricOp ε β → List (Nat × β)
  | .make threshold backend | .createSink threshold backend _ => [(threshold, backend)]
  | _ => []

/-- What it gives to a sink, if the fabric has it. -/
def given (op : FabricOp ε β) : Option (Owner × SinkFrontend β) → List MessageInfo
  | some (.fabric, _) => op.messages dp
  | _ => []

end FabricOp

namespace Registry

variable {ε β : Type} (out : SinkBackend β) (dp : Deeppack)

/-- What a step can do at one address, given the sinks that have been made. -/
inductive Change (which : Nat) (created : List (Nat × β)) : FabricOp ε β →
    Option (Owner × SinkFrontend β) → Option (Owner × SinkFrontend β) → Prop
  | stays {op entry} (h : ∀ s, entry = some (.fabric, s) → op.messages dp = []) :
    Change which created op entry entry
  | added {op owner threshold backend} (howner : owner ≠ .destroyed)
    (hcreated : created[which]? = some (threshold, backend)) :
    Change which created op none (some (owner, .new which threshold backend))
  | moved {op owner owner' s} (howner : owner ≠ .destroyed) (howner' : owner' ≠ .destroyed)
    (hmessages : op.messages dp = []) :
    Change which created op (some (owner, s)) (some (owner', s))
  | finalized {s : SinkFrontend β} : Change which created (.destroySink which) (some (.fabric, s))
    (some (if (s.tryFinalize out).1 then .destroyed else .fabric, (s.tryFinalize out).2))
  | retired {s : SinkFrontend β} {batches consumed} :
    Change which created (.retireLogRecords batches consumed) (some (.fabric, s))
      (some (.fabric, s.retire out dp batches consumed))
  | synced {s : SinkFrontend β} : Change which created .notifyEpochChanged (some (.fabric, s))
    (some (.fabric, (s.trySync out.toOutputBuffer).2))
  | cleared {owner} {s : SinkFrontend β} (howner : owner ≠ .destroyed) :
    Change which created (.clearLastStatus which) (some (owner, s))
      (some (owner, s.clearLastStatus))

section

variable {out dp} {r : Registry β}

theorem change_add {op : FabricOp ε β} {owner : Owner} {threshold : Nat} {backend : β}
    (hfresh : r.sinkAt r.created.length = none) (howner : owner ≠ .destroyed)
    (hop : op.messages dp = []) (which : Nat) :
    Change out dp which (r.add owner threshold backend).created op (r.sinkAt which)
      ((r.add owner threshold backend).sinkAt which) := by
  by_cases hwhich : which = r.created.length
  · subst hwhich
    simp only [add, Function.update_self, hfresh]
    exact .added howner (by simp)
  · simp only [add, Function.update_of_ne hwhich]
    exact .stays fun _ _ => hop

/-- Other addresses are not affected. -/
theorem change_set {op : FabricOp ε β} {owner : Owner} {s : SinkFrontend β} {target : Nat}
    {entry : Option (Owner × SinkFrontend β)} (hop : op.messages dp = [])
    (hentry : r.sinkAt target = entry)
    (h : Change out dp target r.created op entry (some (owner, s))) (which : Nat) :
    Change out dp which r.created op (r.sinkAt which) ((r.set target owner s).sinkAt which) := by
  by_cases hwhich : which = target
  · subst hwhich
    simpa only [set, Function.update_self, hentry] using h
  · simp only [set, Function.update_of_ne hwhich]
    exact .stays fun _ _ => hop

end

theorem step_change {r : Registry β} (hfresh : r.sinkAt r.created.length = none)
    (op : FabricOp ε β) (which : Nat) :
    Change out dp which (r.step out dp op).2.created op (r.sinkAt which)
      ((r.step out dp op).2.sinkAt which) := by
  cases op with
  | make threshold backend => exact change_add hfresh (by decide) rfl which
  | createSink threshold backend fits =>
    cases fits with
    | true => exact change_add hfresh (by decide) rfl which
    | false => exact change_add hfresh (by decide) rfl which
  | attachSink target fits =>
    simp only [step]
    split
    case h_1 s hs =>
      split
      · exact change_set rfl hs (.moved (by decide) (by decide) rfl) which
      · exact .stays fun _ _ => rfl
    case h_2 => exact .stays fun _ _ => rfl
  | destroySink target =>
    simp only [step]
    split
    case h_1 s hs =>
      have hfinalized : Change out dp target r.created (.destroySink (ε := ε) target)
        (some (.fabric, s)) _ := .finalized
      split
      case isTrue hok =>
        rw [if_pos hok] at hfinalized
        exact change_set rfl hs hfinalized which
      case isFalse hok =>
        rw [if_neg hok] at hfinalized
        exact change_set rfl hs hfinalized which
    case h_2 => exact .stays fun _ _ => rfl
  | removeSink target =>
    simp only [step]
    split
    case h_1 s hs => exact change_set rfl hs (.moved (by decide) (by decide) rfl) which
    case h_2 => exact .stays fun _ _ => rfl
  | releaseSink target =>
    simp only [step]
    split
    case h_1 s hs => exact change_set rfl hs (.moved (by decide) (by decide) rfl) which
    case h_2 => exact .stays fun _ _ => rfl
  | clearSinks =>
    simp only [step, mapFabric]
    rcases r.sinkAt which with _ | ⟨owner, s⟩
    · exact .stays fun _ _ => rfl
    · by_cases howner : owner = .fabric
      · subst howner
        exact .moved (by decide) (by decide) rfl
      · simp only [Option.map_some, if_neg howner]
        exact .stays fun _ _ => rfl
  | retireLogRecords batches consumed =>
    simp only [step, mapFabric]
    rcases r.sinkAt which with _ | ⟨owner, s⟩
    · exact .stays fun _ h => by cases h
    · by_cases howner : owner = .fabric
      · subst howner
        exact .retired
      · simp only [Option.map_some, if_neg howner]
        exact .stays fun _ h => by cases h; exact absurd rfl howner
  | notifyEpochChanged =>
    simp only [step, mapFabric]
    rcases r.sinkAt which with _ | ⟨owner, s⟩
    · exact .stays fun _ _ => rfl
    · by_cases howner : owner = .fabric
      · subst howner
        exact .synced
      · simp only [Option.map_some, if_neg howner]
        exact .stays fun _ _ => rfl
  | clearLastStatus target =>
    simp only [step]
    split
    case h_1 s hs => exact change_set rfl hs (.cleared (by decide)) which
    case h_2 s hs => exact change_set rfl hs (.cleared (by decide)) which
    case h_3 => exact .stays fun _ _ => rfl

/-- As long as a sink is active, its backend holds what it has been given since it was made, up to
the threshold; and so does one that has been destroyed. -/
structure Told (Holds Finished : β → Bytes → Prop) (which : Nat) (messages : List MessageInfo)
    (created : List (Nat × β)) (entry : Option (Owner × SinkFrontend β)) : Prop where
  fresh : entry = none → messages = []
  active : ∀ owner s, entry = some (owner, s) → owner ≠ .destroyed → ∃ threshold backend,
    created[which]? = some (threshold, backend) ∧ s.threshold = threshold ∧
    (s.isActive = true → ∀ bytes, Holds backend bytes →
      Holds s.backend (bytes ++ passed threshold messages))
  destroyed : ∀ s, entry = some (.destroyed, s) → ∃ threshold backend,
    created[which]? = some (threshold, backend) ∧
    ∀ bytes, Holds backend bytes → Finished s.backend (bytes ++ passed threshold messages)

variable {out dp} {Holds Finished : β → Bytes → Prop} {which : Nat} {messages : List MessageInfo}
  {created : List (Nat × β)} {op : FabricOp ε β} {entry entry' : Option (Owner × SinkFrontend β)}

/-- A sink that stays with a new state. -/
theorem Told.update {owner owner' : Owner} {s s' : SinkFrontend β} {more : List MessageInfo}
    (h : Told Holds Finished which messages created (some (owner, s))) (howner : owner ≠ .destroyed)
    (howner' : owner' ≠ .destroyed) (hthreshold : s'.threshold = s.threshold)
    (hactive : s'.isActive = true → s.isActive = true ∧ ∀ bytes, Holds s.backend bytes →
      Holds s'.backend (bytes ++ passed s.threshold more)) :
    Told Holds Finished which (messages ++ more) created (some (owner', s')) := by
  obtain ⟨threshold, backend, hcreated, rfl, hholds⟩ := h.active owner s rfl howner
  refine ⟨fun hnone => (by cases hnone), ?_, ?_⟩
  · rintro _ _ ⟨⟩ -
    refine ⟨s.threshold, backend, hcreated, hthreshold, fun hs' bytes hbytes => ?_⟩
    obtain ⟨hs, hmore⟩ := hactive hs'
    rw [passed_append, ← List.append_assoc]
    exact hmore _ (hholds hs bytes hbytes)
  · rintro _ ⟨⟩
    exact absurd rfl howner'

/-- What one step does to a sink, unless it is forgiven a failure. -/
theorem Told.change (hkeeps : Keeps out Holds Finished)
    (h : Told Holds Finished which messages created entry) (hop : op ≠ .clearLastStatus which)
    (hchange : Change out dp which created op entry entry') :
    Told Holds Finished which (messages ++ op.given dp entry) created entry' := by
  cases hchange with
  | stays hmessages =>
    have hgiven : op.given dp entry = [] := by
      rcases entry with _ | ⟨_ | _ | _ | _, s⟩
      · rfl
      · exact hmessages s rfl
      · rfl
      · rfl
      · rfl
    rwa [hgiven, List.append_nil]
  | @added op owner threshold backend howner hcreated =>
    obtain rfl := h.fresh rfl
    refine ⟨fun hnone => (by cases hnone), ?_, ?_⟩
    · rintro _ _ ⟨⟩ -
      exact ⟨threshold, backend, hcreated, rfl, fun _ bytes hbytes => by
        simpa [FabricOp.given, passed, SinkFrontend.new] using hbytes⟩
    · rintro _ ⟨⟩
      exact absurd rfl howner
  | @moved op owner owner' s howner howner' hmessages =>
    have hgiven : op.given dp (some (owner, s)) = [] := by
      cases owner with
      | fabric => exact hmessages
      | caller => rfl
      | removed => rfl
      | destroyed => rfl
    rw [hgiven]
    exact h.update howner howner' rfl fun hs =>
      ⟨hs, fun bytes hbytes => by simpa [passed] using hbytes⟩
  | @finalized s =>
    obtain ⟨hfailed, hok⟩ := s.tryFinalize_holds hkeeps
    cases hfinalized : (s.tryFinalize out).1 with
    | false =>
      obtain ⟨hthreshold, hinactive⟩ := hfailed hfinalized
      refine h.update (by decide) (by decide) hthreshold fun hactive => ?_
      rw [hinactive] at hactive
      cases hactive
    | true =>
      obtain ⟨hs, hfinish⟩ := hok hfinalized
      obtain ⟨threshold, backend, hcreated, -, hholds⟩ := h.active _ s rfl (by decide)
      refine ⟨fun hnone => (by cases hnone), ?_, ?_⟩
      · rintro _ _ ⟨⟩ hne
        exact absurd rfl hne
      · rintro _ ⟨⟩
        refine ⟨threshold, backend, hcreated, fun bytes hbytes => ?_⟩
        simpa [FabricOp.given, FabricOp.messages] using hfinish _ (hholds hs bytes hbytes)
  | @retired s batches consumed =>
    refine h.update (by decide) (by decide) (s.retire_threshold dp batches consumed)
      fun hactive => ?_
    exact SinkFrontend.retire_holds hkeeps dp hactive
  | @synced s =>
    refine h.update (by decide) (by decide) (s.trySync_threshold out) fun hactive => ?_
    obtain ⟨hs, hsync⟩ := SinkFrontend.trySync_holds hkeeps hactive
    refine ⟨hs, fun bytes hbytes => ?_⟩
    simpa [FabricOp.given, FabricOp.messages, passed] using hsync bytes hbytes
  | cleared howner => exact absurd rfl hop

theorem Told.mono (h : Told Holds Finished which messages created entry)
    {created' : List (Nat × β)} (hgrows : created <+: created') :
    Told Holds Finished which messages created' entry := by
  have hsome : ∀ {x}, created[which]? = some x → created'[which]? = some x := fun hx => by
    obtain ⟨more, rfl⟩ := hgrows
    rwa [List.getElem?_append_left (List.getElem?_eq_some_iff.mp hx).1]
  refine ⟨h.fresh, fun owner s hentry howner => ?_, fun s hentry => ?_⟩
  · obtain ⟨threshold, backend, hcreated, hrest⟩ := h.active owner s hentry howner
    exact ⟨threshold, backend, hsome hcreated, hrest⟩
  · obtain ⟨threshold, backend, hcreated, hrest⟩ := h.destroyed s hentry
    exact ⟨threshold, backend, hsome hcreated, hrest⟩

variable (out dp) in
theorem created_step (r : Registry β) (op : FabricOp ε β) :
    (r.step out dp op).2.created = r.created ++ op.made := by
  cases op with
  | make threshold backend => rfl
  | createSink threshold backend fits => cases fits <;> rfl
  | clearSinks | retireLogRecords | notifyEpochChanged => exact (List.append_nil _).symm
  | attachSink | destroySink | removeSink | releaseSink | clearLastStatus =>
    simp only [step, FabricOp.made, List.append_nil]
    repeat' split
    all_goals rfl

end Registry

namespace Fabric

variable {ε β : Type} (out : SinkBackend β) (dp : Deeppack)

/-- What has been retired while a sink was in the vector. -/
def seen (which : Nat) : List (FabricOp ε β) → Fabric β → List MessageInfo
  | [], _ => []
  | op :: ops, f =>
    (if (lookup SinkFrontend.id which f.sinks).isSome then op.messages dp else []) ++
      seen which ops (f.step out dp op).2

variable {out dp} {f : Fabric β} {which : Nat} {Holds Finished : β → Bytes → Prop}

theorem seen_append {ops more : List (FabricOp ε β)} : seen out dp which (ops ++ more) f =
    seen out dp which ops f ++ seen out dp which more (Runs.replies (step out dp) ops f).2 := by
  induction ops generalizing f with
  | nil => rfl
  | cons op ops ih =>
    rw [List.cons_append, seen, ih, seen, List.append_assoc]
    rfl

variable (out dp) in
theorem created_replies (ops : List (FabricOp ε β)) :
    (Runs.replies (step out dp) ops .init).2.created = ops.flatMap FabricOp.made := by
  have hregistry : ∀ r : Registry β, (Runs.replies (Registry.step out dp) ops r).2.created =
      r.created ++ ops.flatMap FabricOp.made := by
    intro r
    induction ops generalizing r with
    | nil => simp [Runs.replies]
    | cons op ops ih =>
      rw [List.flatMap_cons, ← List.append_assoc, ← Registry.created_step out dp]
      exact ih _
  have hrun := congrArg Registry.created (run_represents out dp ops).2.1
  exact hrun.trans ((hregistry _).trans (List.nil_append _))

theorem Valid.given_eq (h : f.Valid) (op : FabricOp ε β) : op.given dp (f.sinkAt which) =
    if (lookup SinkFrontend.id which f.sinks).isSome then op.messages dp else [] := by
  cases hfound : lookup SinkFrontend.id which f.sinks with
  | some s => rw [sinkAt_of_lookup hfound]; rfl
  | none =>
    rw [sinkAt_of_none hfound]
    rcases hothers : f.others which with _ | ⟨_ | _ | _ | _, s⟩
    · rfl
    · exact absurd rfl (h.others which _ s hothers).2
    · rfl
    · rfl
    · rfl

variable (dp) in
theorem run_told (hkeeps : Keeps out Holds Finished) {ops : List (FabricOp ε β)}
    (hstatus : .clearLastStatus which ∉ ops) {messages : List MessageInfo} (hvalid : f.Valid)
    (h : Registry.Told Holds Finished which messages f.created (f.sinkAt which)) :
    let f' := (Runs.replies (step out dp) ops f).2
    f'.Valid ∧ Registry.Told Holds Finished which (messages ++ seen out dp which ops f)
      f'.created (f'.sinkAt which) := by
  induction ops generalizing f messages with
  | nil => exact ⟨hvalid, by simpa [Runs.replies, seen] using h⟩
  | cons op ops ih =>
    obtain ⟨hop, hops⟩ := not_or.mp (List.mem_cons.not.mp hstatus)
    obtain ⟨-, hregistry, hvalid'⟩ := hvalid.step out dp op
    have hfresh : f.registry.sinkAt f.registry.created.length = none :=
      hvalid.fresh _ (Nat.le_refl _)
    have hchange := Registry.step_change out dp hfresh op which
    have hcreated := Registry.created_step out dp f.registry op
    rw [← hregistry] at hchange hcreated
    have hgrows : f.created <+: (f.step out dp op).2.created := ⟨op.made, hcreated.symm⟩
    have htold := (h.mono hgrows).change hkeeps (Ne.symm hop) hchange
    rw [hvalid.given_eq op] at htold
    have hrest := ih hops hvalid' htold
    rw [seen, ← List.append_assoc]
    exact hrest

end Fabric

/-- Whatever happens to a fabric, and whichever backends fail: a sink that is active has been given
all that was retired while it was in the fabric, and `destroy_sink` does not accept one that has
missed anything, unless somebody has cleared its status. -/
theorem destroyed_sink_complete {ε β : Type} {out : SinkBackend β}
    {Holds Finished : β → Bytes → Prop} (hkeeps : Keeps out Holds Finished) (dp : Deeppack)
    (ops : List (FabricOp ε β)) {which : Nat} (hstatus : .clearLastStatus which ∉ ops) :
    let f := (Runs.replies (Fabric.step out dp) ops .init).2
    let messages := Fabric.seen out dp which ops .init
    (∀ s ∈ f.sinks, s.id = which → s.isActive = true → ∃ threshold backend,
      f.created[which]? = some (threshold, backend) ∧
      ∀ bytes, Holds backend bytes → Holds s.backend (bytes ++ passed threshold messages)) ∧
    ∀ s, f.others which = some (.destroyed, s) → ∃ threshold backend,
      f.created[which]? = some (threshold, backend) ∧
      ∀ bytes, Holds backend bytes → Finished s.backend (bytes ++ passed threshold messages) := by
  have hnone : Registry.Told Holds Finished which [] (Fabric.init : Fabric β).created none :=
    ⟨fun _ => rfl, fun _ _ h => (by cases h), fun _ h => (by cases h)⟩
  obtain ⟨hvalid, htold⟩ := Fabric.run_told dp hkeeps hstatus .init hnone
  refine ⟨fun s hs hid hactive => ?_, fun s hs => ?_⟩
  · have hat := Fabric.sinkAt_of_lookup (hvalid.distinct.lookup_eq_some.mpr ⟨hs, hid⟩)
    obtain ⟨threshold, backend, hcreated, -, hholds⟩ := htold.active _ s hat (by decide)
    exact ⟨threshold, backend, hcreated, hholds hactive⟩
  · exact htold.destroyed s ((hvalid.others_iff (by decide)).mp hs)

/-- A backend in memory, which ends with a break. -/
def memoryBackend : SinkBackend Bytes where
  bulkWrite bs b := (true, b ++ bs)
  syncOutput b := (true, b)
  finalize b := (true, b ++ [0xff])

theorem memoryBackend_keeps :
    Keeps memoryBackend (fun b bytes => b = bytes) (fun b bytes => b = bytes ++ [0xff]) where
  bulkWrite h hwrite := by
    cases h
    cases hwrite
    rfl
  syncOutput h hsync := by
    cases h
    cases hsync
    rfl
  finalize h hfinalize := by
    cases h
    cases hfinalize
    rfl

/-- A span end is retired between the creation and the end of a sink. -/
def sampleLifetime : List (FabricOp Unit Bytes) :=
  [.createSink 9 [1] true, .retireLogRecords [[[0x82, 0x80, 2]]] (.ok ()), .destroySink 0]

theorem destroyed_sink_complete_sample :
    ∃ s, (Runs.replies (Fabric.step memoryBackend .ofCbor) sampleLifetime .init).2.others 0 =
      some (.destroyed, s) ∧ s.backend = [1, 0x82, 0x80, 2, 0xff] := by
  obtain ⟨-, hregistry, hvalid⟩ := Fabric.run_represents memoryBackend .ofCbor sampleLifetime
  have hat := congrArg (fun r : Registry Bytes => (r.sinkAt 0).map Prod.fst) hregistry
  have hcreated := congrArg (fun r : Registry Bytes => r.created[0]?) hregistry
  replace hat := hat.trans (show _ = some Owner.destroyed by decide)
  replace hcreated := hcreated.trans (show _ = some (9, [1]) by decide)
  obtain ⟨⟨_, s⟩, hs, rfl⟩ := Option.map_eq_some_iff.mp hat
  have hothers := (hvalid.others_iff (by decide)).mpr hs
  have hseen : Fabric.seen memoryBackend .ofCbor 0 sampleLifetime .init =
      [.spanEnd [0x82, 0x80, 2]] := by
    simp only [sampleLifetime, Fabric.seen, FabricOp.messages, ite_self]
    rfl
  obtain ⟨threshold, backend, hmade, hfinished⟩ := (destroyed_sink_complete memoryBackend_keeps
    .ofCbor sampleLifetime (show .clearLastStatus 0 ∉ sampleLifetime by
      simp [sampleLifetime])).2 s hothers
  cases hcreated.symm.trans hmade
  exact ⟨s, hothers, (hfinished [1] rfl).trans (by rw [hseen]; rfl)⟩

end Deeplog.Sink

import Deeplog.Sink.Lifecycle

/-!
# Sinks that do not fail

A fabric goes on with a sink as long as its backend answers: it is offered every batch, and
`destroy_sink` accepts it.
-/

namespace Deeplog.Sink

open Cbor (Bytes)
open Keyed (lookup)

/-- Every call of a sound backend succeeds. -/
structure Answers {β : Type} (out : SinkBackend β) (Sound : β → Prop) : Prop where
  bulkWrite : ∀ {b} bs, Sound b → ∃ b', out.bulkWrite bs b = (true, b') ∧ Sound b'
  syncOutput : ∀ {b}, Sound b → ∃ b', out.syncOutput b = (true, b') ∧ Sound b'
  finalize : ∀ {b}, Sound b → ∃ b', out.finalize b = (true, b')

namespace SinkFrontend

variable {β : Type} {out : SinkBackend β} {Sound : β → Prop} {s : SinkFrontend β}

/-- An active sink with a sound backend. -/
structure Healthy (Sound : β → Prop) (s : SinkFrontend β) : Prop where
  active : s.isActive = true
  sound : Sound s.backend

theorem Healthy.copyMessage (hanswers : Answers out Sound) (h : s.Healthy Sound)
    (message : MessageInfo) : ∃ s', s.copyMessage out.toOutputBuffer message = (true, s') ∧
      s'.Healthy Sound := by
  have hwrite (bs : Bytes) : ∃ s', s.bulkWrite out.toOutputBuffer bs = (true, s') ∧
      s'.Healthy Sound := by
    obtain ⟨b, hb, hsound⟩ := hanswers.bulkWrite bs h.sound
    simp only [bulkWrite, hb]
    exact ⟨_, rfl, h.active, hsound⟩
  cases message with
  | record rawData timestamp severity =>
    by_cases hpasses : s.threshold ≤ severity
    · simpa only [SinkFrontend.copyMessage, if_pos hpasses] using hwrite rawData
    · simp only [SinkFrontend.copyMessage, if_neg hpasses]
      exact ⟨s, rfl, h⟩
  | unknown rawData | spanStart rawData | spanEnd rawData | malformed rawData =>
    exact hwrite rawData

theorem Healthy.concateMessages (hanswers : Answers out Sound) (h : s.Healthy Sound)
    (messages : List MessageInfo) :
    ∃ s', s.concateMessages out.toOutputBuffer messages = (true, s') ∧ s'.Healthy Sound := by
  induction messages generalizing s with
  | nil => exact ⟨s, rfl, h⟩
  | cons message messages ih =>
    obtain ⟨s₁, hcopy, h₁⟩ := h.copyMessage hanswers message
    simp only [SinkFrontend.concateMessages, hcopy]
    exact ih h₁

theorem Healthy.offer (hanswers : Answers out Sound) (h : s.Healthy Sound) (n : Nat)
    (messages : List MessageInfo) :
    ∃ s', s.offer out.toOutputBuffer n messages = (true, s') ∧ s'.Healthy Sound := by
  obtain ⟨s₁, hcopy, h₁⟩ := h.concateMessages hanswers messages
  simp only [SinkFrontend.offer, tryConsume, h.active, hcopy]
  exact ⟨_, rfl, h₁.active, h₁.sound⟩

theorem Healthy.offerUntilRefused (hanswers : Answers out Sound) (h : s.Healthy Sound)
    (batches : List (Nat × List MessageInfo)) :
    (s.offerUntilRefused out.toOutputBuffer batches).Healthy Sound := by
  induction batches generalizing s with
  | nil => exact h
  | cons batch batches ih =>
    obtain ⟨n, messages⟩ := batch
    obtain ⟨s₁, hoffer, h₁⟩ := h.offer hanswers n messages
    rw [SinkFrontend.offerUntilRefused, hoffer]
    exact ih h₁

theorem Healthy.trySync (hanswers : Answers out Sound) (h : s.Healthy Sound) :
    (s.trySync out.toOutputBuffer).2.Healthy Sound := by
  obtain ⟨b, hb, hsound⟩ := hanswers.syncOutput h.sound
  have hsync : s.trySync out.toOutputBuffer = (true, { s with backend := b }) := by
    simp [SinkFrontend.trySync, h.active, hb]
  rw [hsync]
  exact ⟨h.active, hsound⟩

theorem Healthy.retire (hanswers : Answers out Sound) (h : s.Healthy Sound) (dp : Deeppack)
    {ε : Type} (batches : List (List Bytes)) (consumed : Except ε Unit) :
    (s.retire out dp batches consumed).Healthy Sound := by
  have hoffered := h.offerUntilRefused hanswers (batches.map dp.preparseMessages)
  cases consumed with
  | error e => exact hoffered
  | ok => exact hoffered.trySync hanswers

theorem Healthy.tryFinalize (hanswers : Answers out Sound) (h : s.Healthy Sound) :
    (s.tryFinalize out).1 = true := by
  obtain ⟨b, hb⟩ := hanswers.finalize h.sound
  simp [SinkFrontend.tryFinalize, h.active, hb]

end SinkFrontend

/-- The calls after which a fabric may no longer have a sink, or may have forgotten that it has
failed. -/
def FabricOp.Takes {ε β : Type} (which : Nat) : FabricOp ε β → Prop
  | .destroySink target | .removeSink target | .releaseSink target | .clearLastStatus target =>
    target = which
  | .clearSinks => True
  | .make _ _ | .createSink _ _ _ | .attachSink _ _ | .retireLogRecords _ _
  | .notifyEpochChanged => False

namespace Registry

variable {ε β : Type} {out : SinkBackend β} {dp : Deeppack} {Sound : β → Prop} {r : Registry β}
  {which : Nat} {s : SinkFrontend β}

variable (dp) in
theorem step_healthy (hanswers : Answers out Sound) (hfresh : r.sinkAt r.created.length = none)
    (hat : r.sinkAt which = some (.fabric, s)) (h : s.Healthy Sound) {op : FabricOp ε β}
    (hop : ¬op.Takes which) :
    ∃ s', (r.step out dp op).2.sinkAt which = some (.fabric, s') ∧ s'.Healthy Sound := by
  have hset {target : Nat} (hne : target ≠ which) (owner : Owner) (x : SinkFrontend β) :
      (r.set target owner x).sinkAt which = some (.fabric, s) :=
    (Function.update_of_ne hne.symm ..).trans hat
  have hadd (owner : Owner) (threshold : Nat) (backend : β) :
      (r.add owner threshold backend).sinkAt which = some (.fabric, s) := by
    refine (Function.update_of_ne ?_ ..).trans hat
    rintro rfl
    cases hfresh.symm.trans hat
  cases op with
  | make threshold backend => exact ⟨s, hadd .caller threshold backend, h⟩
  | createSink threshold backend fits =>
    cases fits with
    | true => exact ⟨s, hadd .fabric threshold backend, h⟩
    | false => exact ⟨s, hadd .removed threshold backend, h⟩
  | attachSink target fits =>
    refine ⟨s, ?_, h⟩
    simp only [step]
    split
    case h_1 x hx =>
      have hne : target ≠ which := by
        rintro rfl
        cases hx.symm.trans hat
      split
      · exact hset hne .fabric x
      · exact hat
    case h_2 => exact hat
  | destroySink target | removeSink target | releaseSink target | clearLastStatus target =>
    refine ⟨s, ?_, h⟩
    simp only [step]
    repeat' split
    all_goals first | exact hset hop _ _ | exact hat
  | clearSinks => exact absurd trivial hop
  | retireLogRecords batches consumed =>
    refine ⟨s.retire out dp batches consumed, ?_, h.retire hanswers dp batches consumed⟩
    simp [step, mapFabric, hat]
  | notifyEpochChanged =>
    refine ⟨(s.trySync out.toOutputBuffer).2, ?_, h.trySync hanswers⟩
    simp [step, mapFabric, hat]

end Registry

namespace Fabric

variable {ε β : Type} {out : SinkBackend β} {dp : Deeppack} {Sound : β → Prop} {f : Fabric β}
  {which : Nat}

/-- A fabric that has a healthy sink. -/
structure Serves (Sound : β → Prop) (which : Nat) (f : Fabric β) : Prop where
  valid : f.Valid
  healthy : ∃ s, f.sinkAt which = some (.fabric, s) ∧ s.Healthy Sound

theorem Serves.attached (h : f.Serves Sound which) :
    (lookup SinkFrontend.id which f.sinks).isSome = true := by
  obtain ⟨s, hat, -⟩ := h.healthy
  rw [h.valid.lookup_iff.mpr hat]
  rfl

theorem Serves.step (hanswers : Answers out Sound) (h : f.Serves Sound which) {op : FabricOp ε β}
    (hop : ¬op.Takes which) : (f.step out dp op).2.Serves Sound which := by
  obtain ⟨s, hat, hs⟩ := h.healthy
  obtain ⟨-, hregistry, hvalid⟩ := h.valid.step out dp op
  have hfresh := h.valid.fresh _ (Nat.le_refl _)
  obtain ⟨s', hat', hs'⟩ := Registry.step_healthy dp (r := f.registry) hanswers hfresh hat hs hop
  rw [← hregistry] at hat'
  exact ⟨hvalid, s', hat', hs'⟩

theorem Serves.run (hanswers : Answers out Sound) (h : f.Serves Sound which)
    {ops : List (FabricOp ε β)} (hops : ∀ op ∈ ops, ¬op.Takes which) :
    (Runs.replies (Fabric.step out dp) ops f).2.Serves Sound which := by
  induction ops generalizing f with
  | nil => exact h
  | cons op ops ih =>
    obtain ⟨hop, hops⟩ := List.forall_mem_cons.mp hops
    exact ih (h.step hanswers hop) hops

/-- `destroy_sink` accepts it. -/
theorem Serves.destroySink (hanswers : Answers out Sound) (h : f.Serves Sound which) :
    ∃ s, (f.destroySink (ε := ε) out which).2.others which = some (.destroyed, s) := by
  obtain ⟨s, hat, hs⟩ := h.healthy
  refine ⟨(s.tryFinalize out).2, ?_⟩
  have hid := h.valid.id_of_sinkAt hat
  rw [Fabric.destroySink, h.valid.lookup_iff.mpr hat]
  simp only [hs.tryFinalize hanswers, if_true, put, SinkFrontend.tryFinalize_id]
  rw [show s.id = which from hid]
  exact Function.update_self ..

/-- A sink that has just been made by `create_sink`. -/
theorem serves_createSink (h : f.Valid) {threshold : Nat} {backend : β}
    (hthreshold : threshold < disableThreshold) (hsound : Sound backend) :
    (f.createSink (ε := ε) threshold backend true).2.Serves Sound f.created.length := by
  obtain ⟨-, hregistry, hvalid⟩ := h.step_createSink (ε := ε) threshold backend true
  refine ⟨hvalid, .new f.created.length threshold backend, ?_, ?_, hsound⟩
  · exact (congrArg (fun r : Registry β => r.sinkAt f.created.length) hregistry).trans
      (Function.update_self ..)
  · simp [SinkFrontend.isActive, SinkFrontend.new, hthreshold]

end Fabric

end Deeplog.Sink

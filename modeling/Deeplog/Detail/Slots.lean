import Deeplog.Detail.AnyReified
import Deeplog.Lib.Runs

/-!
# Values of any type are slots

Each operation on the objects is one on the slots, and so is every run of operations. What is
undefined to do with memory is only done by calls that make no sense for a slot either: by a second
constructor, with an object that is not there, with the text of no value, or by a swap of values
whose allocators stay and differ.
-/

namespace Deeplog.Detail.Reifieds

open Cbor (Bytes)
open Blocks (Allocators Heap)

section Refinement

variable {α ε τ : Type} {traits : AllocatorTraits α} {value : ReifiedValue ε τ}
  {s : Reifieds α τ}

/-- A step of the objects is one of the slots. -/
def Refines (traits : AllocatorTraits α) : Option (ReifiedReply ε × Reifieds α τ) →
    Option (ReifiedReply ε × Slots α τ) → Prop :=
  Option.Rel fun impl spec => impl.1 = spec.1 ∧ impl.2.slots = spec.2 ∧ impl.2.Owned traits

theorem construct_refines (hs : s.Owned traits) (which : Nat) (allocator : α) :
    Refines traits (s.construct (ε := ε) which allocator)
      (Slots.step traits value (.construct which allocator) s.slots) := by
  cases hwhich : s.objects which with
  | some self =>
    simp only [construct, Slots.step, slots_apply, hwhich, Option.map_some]
    exact .none
  | none =>
    simp only [construct, Slots.step, slots_apply, hwhich, Option.map_none]
    refine .some ⟨rfl, ?_, hs.put_none (by simp [hwhich]) rfl⟩
    funext v
    grind [slot]

theorem reify_refines [Inhabited τ] (hs : s.Owned traits) (which : Nat) (allocator : α)
    (reifying : Reifying ε τ) :
    Refines traits (s.reify traits which allocator reifying)
      (Slots.step traits value (.reify which allocator reifying) s.slots) := by
  cases hwhich : s.objects which with
  | some self =>
    simp only [reify, Slots.step, slots_apply, hwhich, Option.map_some]
    exact .none
  | none =>
    cases reifying with
    | noMemory =>
      simp only [reify, Slots.step, slots_apply, hwhich, Option.map_none]
      exact .some ⟨rfl, rfl, hs⟩
    | throws =>
      simp only [reify, Slots.step, slots_apply, hwhich, Option.map_none, Heap.allocate]
      exact .some ⟨rfl, hs.slots_lose allocator, hs.lose allocator⟩
    | decoded result =>
      simp only [reify, Slots.step, slots_apply, hwhich, Option.map_none, Heap.allocate]
      cases result with
      | error e =>
        have hblock : Heap.block (s.heap ++ [some ⟨allocator, some default⟩]) s.heap.length =
            some ⟨allocator, some default⟩ := by grind
        simp only [Heap.allocate_construct, destroySelf,
          Heap.destroy_deallocate hblock (traits.equivalence.refl allocator),
          Option.bind_eq_bind, Option.bind_some]
        have hsame := Heap.block_released (h := s.heap) (some ⟨allocator, some default⟩)
        refine .some ⟨rfl, ?_, hs.congr hsame⟩
        funext v
        change (s.objects v).map (slot _) = _
        rw [slot_congr hsame]
        rfl
      | ok x =>
        simp only [Heap.allocate_construct, Heap.assign_concat, Option.bind_eq_bind,
          Option.bind_some]
        refine .some ⟨rfl, ?_, hs.put_new (by simp [hwhich]) allocator x⟩
        have hblock : Heap.block (s.heap ++ [some ⟨allocator, some x⟩]) s.heap.length =
            some ⟨allocator, some x⟩ := by grind
        have hobject := Heap.object_eq hblock
        funext v
        by_cases hvw : v = which
        · grind [slot]
        · cases hv : s.objects v with
          | none => grind
          | some object =>
            have hobject := hs.slot_concat v hv (some ⟨allocator, some x⟩)
            grind

theorem moveConstruct_refines (hs : s.Owned traits) (which other : Nat) :
    Refines traits (s.moveConstruct (ε := ε) which other)
      (Slots.step traits value (.moveConstruct which other) s.slots) := by
  cases hwhich : s.objects which with
  | some self =>
    simp only [moveConstruct, Slots.step, slots_apply, hwhich, Option.map_some]
    exact .none
  | none =>
    cases hother : s.objects other with
    | none =>
      simp only [moveConstruct, Slots.step, slots_apply, hwhich, hother, Option.map_none]
      exact .none
    | some from_ =>
      have hne : which ≠ other := by grind
      simp only [moveConstruct, Slots.step, slots_apply, hwhich, hother, Option.map_none,
        Option.map_some]
      refine .some ⟨rfl, ?_, hs.transfer hne hother (by simp [hwhich]) rfl rfl fun _ => ?_⟩
      · funext v
        grind [slot]
      · exact traits.equivalence.refl from_.allocator

theorem destroy_refines (hs : s.Owned traits) (which : Nat) :
    Refines traits (s.destroy (ε := ε) traits which)
      (Slots.step traits value (.destroy which) s.slots) := by
  cases hwhich : s.objects which with
  | none =>
    simp only [destroy, Slots.step, slots_apply, hwhich, Option.map_none]
    exact .none
  | some self =>
    obtain ⟨h, hrelease, howned, hsame⟩ := hs.release hwhich self.allocator
    simp only [destroy, Slots.step, slots_apply, hwhich, Option.map_some, hrelease,
      Option.bind_eq_bind, Option.bind_some]
    refine .some ⟨rfl, ?_, ?_⟩
    · funext v
      by_cases hvw : v = which
      · grind [Function.update_apply]
      · cases hv : s.objects v with
        | none => grind [Function.update_apply]
        | some object =>
          have hobject := hsame v object hvw hv
          grind [Function.update_apply]
    · have hnone : ∀ old, (s.put which ⟨none, self.allocator⟩).objects which = some old →
          old.reified = none := by grind
      have hdropped := howned.drop hnone
      simpa only [put, Function.update_idem] using hdropped

theorem encode_refines (hs : s.Owned traits) (which : Nat) :
    Refines traits (s.encode value which) (Slots.step traits value (.encode which) s.slots) := by
  cases hwhich : s.objects which with
  | none =>
    simp only [encode, Slots.step, slots_apply, hwhich, Option.map_none]
    exact .none
  | some self =>
    obtain ⟨reified, allocator⟩ := self
    simp only [encode, Slots.step, slots_apply, hwhich, Option.map_some]
    cases reified with
    | none => exact .some ⟨rfl, rfl, hs⟩
    | some b =>
      obtain ⟨a, x, hblock, -⟩ := hs.holds which _ b hwhich rfl
      simp only [slot, Option.bind_some, Heap.object_eq hblock, Option.map_some]
      exact .some ⟨rfl, rfl, hs⟩

theorem stringify_refines (hs : s.Owned traits) (which : Nat) (formatSpec : Bytes) :
    Refines traits (s.stringify value which formatSpec)
      (Slots.step traits value (.stringify which formatSpec) s.slots) := by
  cases hwhich : s.objects which with
  | none =>
    simp only [stringify, Slots.step, slots_apply, hwhich, Option.map_none, Option.bind_eq_bind,
      Option.bind_none]
    exact .none
  | some self =>
    obtain ⟨reified, allocator⟩ := self
    simp only [stringify, Slots.step, slots_apply, hwhich, Option.map_some, Option.bind_eq_bind,
      Option.bind_some, slot]
    cases reified with
    | none => exact .none
    | some b =>
      obtain ⟨a, x, hblock, -⟩ := hs.holds which _ b hwhich rfl
      simp only [Option.bind_some, Heap.object_eq hblock, Option.map_some]
      exact .some ⟨rfl, rfl, hs⟩

theorem swap_refines (hs : s.Owned traits) (left right : Nat) :
    Refines traits (s.swap (ε := ε) traits left right)
      (Slots.step traits value (.swap left right) s.slots) := by
  cases hl : s.objects left with
  | none =>
    simp only [swap, Slots.step, slots_apply, hl, Option.map_none]
    exact .none
  | some l =>
    cases hr : s.objects right with
    | none =>
      simp only [swap, Slots.step, slots_apply, hl, hr, Option.map_none, Option.map_some]
      exact .none
    | some r =>
      simp only [swap, Slots.step, slots_apply, hl, hr, Option.map_some]
      split
      · refine .some ⟨rfl, ?_, ?_⟩
        · funext v
          grind
        · exact hs.swap hl hr (traits.equivalence.refl _) (traits.equivalence.refl _)
      · by_cases hequal : traits.equal l.allocator r.allocator = true
        · rw [if_pos hequal, if_pos (show traits.equal (slot s.heap l).allocator
            (slot s.heap r).allocator = true from hequal)]
          refine .some ⟨rfl, ?_, ?_⟩
          · funext v
            grind [slot]
          · exact hs.swap hl hr (traits.equivalence.symm hequal) hequal
        · rw [if_neg hequal, if_neg (show ¬traits.equal (slot s.heap l).allocator
            (slot s.heap r).allocator = true from hequal)]
          exact .none

theorem moves_of_assigned
    (h : (traits.isAlwaysEqual || traits.propagateOnContainerMoveAssignment) = true)
    (self from_ : Slot α τ) (moving : Moving) : Slots.moves traits self from_ moving = true := by
  rw [Slots.moves, h]
  rfl

theorem moves_of_taken {self from_ : AnyReified α}
    (h : (traits.equal self.allocator from_.allocator || from_.reified.isNone) = true)
    (heap : Heap α τ) (moving : Moving) :
    Slots.moves traits (slot heap self) (slot heap from_) moving = true := by
  rcases (Bool.or_eq_true _ _).mp h with hequal | hnone
  · simp [Slots.moves, slot, hequal]
  · have hreified := Option.isNone_iff_eq_none.mp hnone
    simp [Slots.moves, slot, hreified]

/-- Otherwise the value has to move to other memory. -/
theorem Owned.moves_eq (hs : s.Owned traits) {other : Nat} {self from_ : AnyReified α}
    (hother : s.objects other = some from_)
    (hassigned : ¬(traits.isAlwaysEqual || traits.propagateOnContainerMoveAssignment) = true)
    (htaken : ¬(traits.equal self.allocator from_.allocator || from_.reified.isNone) = true)
    (moving : Moving) : Slots.moves traits (slot s.heap self) (slot s.heap from_) moving =
      decide (moving = .succeeds) := by
  cases hb : from_.reified with
  | none => simp [hb] at htaken
  | some b =>
    obtain ⟨a, x, hblock, -⟩ := hs.holds other from_ b hother hb
    have hunequal : traits.equal self.allocator from_.allocator = false := by grind
    simp [Slots.moves, slot, hb, Heap.object_eq hblock, hunequal,
      Bool.eq_false_of_not_eq_true hassigned]

theorem moveAssign_refines (hs : s.Owned traits) (which other : Nat) (moving : Moving) :
    Refines traits (s.moveAssign (ε := ε) traits which other moving)
      (Slots.step traits value (.moveAssign which other moving) s.slots) := by
  cases hwhich : s.objects which with
  | none =>
    simp only [moveAssign, Slots.step, slots_apply, hwhich, Option.map_none]
    exact .none
  | some self =>
    cases hother : s.objects other with
    | none =>
      simp only [moveAssign, Slots.step, slots_apply, hwhich, hother, Option.map_none,
        Option.map_some]
      exact .none
    | some from_ =>
      simp only [moveAssign, Slots.step, slots_apply, hwhich, hother, Option.map_some]
      by_cases hne : which = other
      · rw [if_pos hne, if_pos hne]
        exact .some ⟨rfl, rfl, hs⟩
      · rw [if_neg hne, if_neg hne]
        have hrest : ({ from_ with reified := none } : AnyReified α).reified = none := rfl
        by_cases hpropagates :
            (traits.isAlwaysEqual || traits.propagateOnContainerMoveAssignment) = true
        · rw [if_pos hpropagates, if_pos (moves_of_assigned hpropagates _ _ moving)]
          obtain ⟨h, hrelease, howned, hslots⟩ := hs.replace hne hwhich hother hrest
            fun _ => traits.equal_assigned hpropagates self.allocator from_.allocator
          simp only [hrelease, Option.bind_eq_bind, Option.bind_some]
          exact .some ⟨rfl, hslots, howned⟩
        · have hstays : traits.propagateOnContainerMoveAssignment = false := by grind
          by_cases hsteals :
              (traits.equal self.allocator from_.allocator || from_.reified.isNone) = true
          · rw [if_neg hpropagates, if_pos hsteals, if_pos (moves_of_taken hsteals s.heap moving),
              hstays]
            have hequal : from_.reified ≠ none →
                traits.equal from_.allocator self.allocator = true := fun hsome =>
              traits.equivalence.symm (by simpa [hsome] using hsteals)
            obtain ⟨h, hrelease, howned, hslots⟩ := hs.replace hne hwhich hother hrest hequal
            simp only [hrelease, Option.bind_eq_bind, Option.bind_some]
            exact .some ⟨rfl, hslots, howned⟩
          · cases hb : from_.reified with
            | none => simp [hb] at hsteals
            | some b =>
              rw [if_neg hpropagates, if_neg (by rwa [hb] at hsteals),
                hs.moves_eq hother hpropagates hsteals moving]
              simp only [Option.bind_eq_bind, Option.bind_some]
              cases moving with
              | noMemory => exact .some ⟨rfl, rfl, hs⟩
              | throws => exact .some ⟨rfl, hs.slots_lose self.allocator, hs.lose self.allocator⟩
              | succeeds =>
                obtain ⟨h, h', hmove, hrelease, howned, hslots⟩ :=
                  hs.moveTo_replace hne hwhich hother hb
                simp only [hmove, hrelease, hstays, Option.bind_some]
                exact .some ⟨rfl, hslots, howned⟩

theorem step_refines [Inhabited τ] (hs : s.Owned traits) (op : ReifiedOp α ε τ) :
    Refines traits (step traits value op s) (Slots.step traits value op s.slots) := by
  cases op with
  | construct which allocator => exact construct_refines hs which allocator
  | reify which allocator reifying => exact reify_refines hs which allocator reifying
  | moveConstruct which other => exact moveConstruct_refines hs which other
  | moveAssign which other moving => exact moveAssign_refines hs which other moving
  | swap left right => exact swap_refines hs left right
  | destroy which => exact destroy_refines hs which
  | encode which => exact encode_refines hs which
  | stringify which formatSpec => exact stringify_refines hs which formatSpec

theorem moveTo_lost {target source : α} {b : Nat} {moving : Moving} (hmoving : moving ≠ .throws)
    {r : Option Nat × Reifieds α τ} (hmove : moveTo traits target source b moving s = some r) :
    r.2.lost = s.lost := by
  cases moving with
  | noMemory =>
    cases hmove
    rfl
  | throws => exact absurd rfl hmoving
  | succeeds =>
    obtain ⟨x, -, hmove⟩ := Option.bind_eq_some_iff.mp hmove
    obtain ⟨h, -, hmove⟩ := Option.bind_eq_some_iff.mp hmove
    obtain ⟨h', -, hmove⟩ := Option.bind_eq_some_iff.mp hmove
    cases hmove
    rfl

theorem reify_lost [Inhabited τ] {which : Nat} {allocator : α} {reifying : Reifying ε τ}
    (hthrows : reifying ≠ .throws) {r : ReifiedReply ε × Reifieds α τ}
    (hstep : s.reify traits which allocator reifying = some r) : r.2.lost = s.lost := by
  simp only [reify] at hstep
  split at hstep
  · cases hstep
  · cases reifying with
    | noMemory =>
      cases hstep
      rfl
    | throws => exact absurd rfl hthrows
    | decoded result =>
      cases result with
      | error e =>
        obtain ⟨h, -, hstep⟩ := Option.bind_eq_some_iff.mp hstep
        obtain ⟨h', -, hstep⟩ := Option.bind_eq_some_iff.mp hstep
        cases hstep
        rfl
      | ok x =>
        obtain ⟨h, -, hstep⟩ := Option.bind_eq_some_iff.mp hstep
        obtain ⟨h', -, hstep⟩ := Option.bind_eq_some_iff.mp hstep
        cases hstep
        rfl

theorem moveAssign_lost {which other : Nat} {moving : Moving} (hmoving : moving ≠ .throws)
    {r : ReifiedReply ε × Reifieds α τ}
    (hstep : s.moveAssign traits which other moving = some r) : r.2.lost = s.lost := by
  simp only [moveAssign] at hstep
  split at hstep
  case h_2 => cases hstep
  split at hstep
  · cases hstep
    rfl
  split at hstep
  · obtain ⟨h, -, hstep⟩ := Option.bind_eq_some_iff.mp hstep
    cases hstep
    rfl
  split at hstep
  · obtain ⟨h, -, hstep⟩ := Option.bind_eq_some_iff.mp hstep
    cases hstep
    rfl
  · obtain ⟨b, -, hstep⟩ := Option.bind_eq_some_iff.mp hstep
    obtain ⟨⟨moved, s'⟩, hmove, hstep⟩ := Option.bind_eq_some_iff.mp hstep
    have hlost : s'.lost = s.lost := moveTo_lost hmoving hmove
    cases moved with
    | none =>
      cases hstep
      exact hlost
    | some moved =>
      obtain ⟨h, -, hstep⟩ := Option.bind_eq_some_iff.mp hstep
      cases hstep
      exact hlost

/-- Only a constructor that throws makes memory get lost. -/
theorem step_lost [Inhabited τ] {op : ReifiedOp α ε τ} (hop : op.throws = false)
    {r : ReifiedReply ε × Reifieds α τ} (hstep : step traits value op s = some r) :
    r.2.lost = s.lost := by
  cases op with
  | construct which allocator => grind [step, construct]
  | reify which allocator reifying =>
    refine reify_lost (fun hthrows => ?_) hstep
    subst hthrows
    cases hop
  | moveConstruct which other => grind [step, moveConstruct]
  | moveAssign which other moving =>
    refine moveAssign_lost (fun hthrows => ?_) hstep
    subst hthrows
    cases hop
  | swap left right => grind [step, swap]
  | destroy which =>
    simp only [step, destroy] at hstep
    split at hstep
    · cases hstep
    · obtain ⟨h, -, hstep⟩ := Option.bind_eq_some_iff.mp hstep
      cases hstep
      rfl
  | encode which =>
    simp only [step, encode] at hstep
    split at hstep
    · cases hstep
    · cases hstep
      rfl
    · obtain ⟨x, -, hstep⟩ := Option.map_eq_some_iff.mp hstep
      cases hstep
      rfl
  | stringify which formatSpec =>
    obtain ⟨self, -, hstep⟩ := Option.bind_eq_some_iff.mp hstep
    obtain ⟨b, -, hstep⟩ := Option.bind_eq_some_iff.mp hstep
    obtain ⟨x, -, hstep⟩ := Option.bind_eq_some_iff.mp hstep
    cases hstep
    rfl

/-- No objects, and no memory. -/
def start : Reifieds α τ := ⟨[], fun _ => none, []⟩

theorem start_owned : (start : Reifieds α τ).Owned traits := by
  constructor <;> grind [start, Heap.block]

/-- Objects that hold what slots hold. Each block has one owner, whose allocator can release it, and
no memory is lost by operations without a constructor that throws. -/
def ActsLike (traits : AllocatorTraits α) (ops : List (ReifiedOp α ε τ)) (s : Reifieds α τ)
    (t : Slots α τ) : Prop :=
  s.slots = t ∧ s.Owned traits ∧ ((∀ op ∈ ops, op.throws = false) → s.lost = [])

theorem ActsLike.step [Inhabited τ] {ops : List (ReifiedOp α ε τ)} {op : ReifiedOp α ε τ}
    (hop : op ∈ ops) {t : Slots α τ} (h : ActsLike traits ops s t) :
    Option.Rel (fun impl spec => impl.1 = spec.1 ∧ ActsLike traits ops impl.2 spec.2)
      (step traits value op s) (Slots.step traits value op t) := by
  obtain ⟨rfl, howned, hlost⟩ := h
  have hrefines : Refines traits (Reifieds.step traits value op s)
    (Slots.step traits value op s.slots) := step_refines howned op
  cases hstep : Reifieds.step traits value op s with
  | none =>
    rw [hstep] at hrefines
    generalize Slots.step traits value op s.slots = r at hrefines
    cases hrefines
    exact .none
  | some r =>
    rw [hstep] at hrefines
    generalize Slots.step traits value op s.slots = r' at hrefines
    cases hrefines with
    | some hacts =>
      obtain ⟨hreply, hslots, howned⟩ := hacts
      refine .some ⟨hreply, hslots, howned, fun hthrows => ?_⟩
      exact (step_lost (hthrows op hop) hstep).trans (hlost hthrows)

/-- Whatever is done to objects, they answer as slots do, and memory is undefined to use only where
slots have no answer. -/
theorem objects_act_like_slots [Inhabited τ] (traits : AllocatorTraits α)
    (value : ReifiedValue ε τ) (ops : List (ReifiedOp α ε τ)) :
    Option.Rel (fun impl spec => impl.1 = spec.1 ∧ ActsLike traits ops impl.2 spec.2)
      (Runs.answers (step traits value) ops start)
      (Runs.answers (Slots.step traits value) ops fun _ => none) :=
  Runs.answers_refine (fun _ _ _ hop h => h.step hop) (fun _ h => h)
    ⟨rfl, start_owned, fun _ => rfl⟩

/-- A value that has to move to memory from another allocator. -/
example :
    let equality : Allocators Nat := ⟨fun a b => a = b, by simpa using eq_equivalence⟩
    let traits : AllocatorTraits Nat := ⟨equality, false, false, false, by simp⟩
    let value : ReifiedValue Unit Nat := ⟨fun _ => 1, fun x => [.ofNat x], fun _ _ => .error ()⟩
    (Runs.answers (step traits value) [.reify 0 1 (.decoded (.ok 7)), .construct 1 2,
      .moveAssign 1 0 .noMemory, .encode 0, .moveAssign 1 0 .succeeds, .encode 0, .encode 1,
      .destroy 1] start).map Prod.fst = some [.done, .done, .threw, .encoded 1 [7], .done,
        .encoded 1 nullValue, .encoded 1 [7], .done] := rfl

end Refinement

end Deeplog.Detail.Reifieds

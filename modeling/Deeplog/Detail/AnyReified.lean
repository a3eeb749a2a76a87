import Deeplog.Lib.Blocks
import Deeplog.Lib.Cbor

/-!
# Values of any type

`any_reified` owns a value that has been decoded, in memory from its allocator. What becomes of the
allocators when such objects are moved or swapped depends on `std::allocator_traits`. Whatever is
done to them, they are slots that hold a value or none, and no memory is lost or released by
another allocator.
-/

namespace Deeplog.Detail

open Cbor (Bytes)
open Blocks (Allocators Block Heap)

/-- `std::allocator_traits` -/
structure AllocatorTraits (α : Type) extends Allocators α where
  isAlwaysEqual : Bool
  propagateOnContainerMoveAssignment : Bool
  propagateOnContainerSwap : Bool
  equal_of_always : isAlwaysEqual = true → ∀ a b, equal a b = true

/-- The allocator that goes with a value to another object, or stays there, can release it. -/
theorem AllocatorTraits.equal_assigned {α : Type} (traits : AllocatorTraits α)
    (h : (traits.isAlwaysEqual || traits.propagateOnContainerMoveAssignment) = true) (a a' : α) :
    traits.equal a' (if traits.propagateOnContainerMoveAssignment then a' else a) = true := by
  split
  · exact traits.equivalence.refl a'
  · next hstays =>
    have halways : traits.isAlwaysEqual = true := by simpa [hstays] using h
    exact traits.equal_of_always halways a' a

/-- What can be done with a value, as `reified_value_base` has it. -/
structure ReifiedValue (ε τ : Type) where
  encodedSize : τ → Nat
  encode : τ → Bytes
  stringify : Bytes → τ → Except ε Bytes

/-- `dp::null_value` -/
def nullValue : Bytes := [0xf6]

structure AnyReified (α : Type) where
  reified : Option Nat
  allocator : α

/-- The objects of a program, and its memory. Besides, the blocks which nobody has a pointer to. -/
structure Reifieds (α τ : Type) where
  heap : Heap α τ
  objects : Nat → Option (AnyReified α)
  lost : List Nat

/-- How `basic_reified_value::reify` ends: memory is short, the constructor throws
`std::bad_alloc`, or `dp::decode` has a result. -/
inductive Reifying (ε τ : Type) where
  | noMemory
  | throws
  | decoded (result : Except ε τ)

/-- How `basic_reified_value::move_to` ends. -/
inductive Moving where
  | noMemory
  | throws
  | succeeds
  deriving DecidableEq

inductive ReifiedOp (α ε τ : Type) where
  | construct (which : Nat) (allocator : α)
  | reify (which : Nat) (allocator : α) (reifying : Reifying ε τ)
  | moveConstruct (which other : Nat)
  | moveAssign (which other : Nat) (moving : Moving)
  | swap (left right : Nat)
  | destroy (which : Nat)
  | encode (which : Nat)
  | stringify (which : Nat) (formatSpec : Bytes)

/-- Whether the operation has a constructor that throws. -/
def ReifiedOp.throws {α ε τ : Type} : ReifiedOp α ε τ → Bool
  | .reify _ _ .throws | .moveAssign _ _ .throws => true
  | _ => false

inductive ReifiedReply (ε : Type) where
  | done
  | notEnoughMemory
  | failed (e : ε)
  | threw
  | encoded (size : Nat) (bytes : Bytes)
  | text (result : Except ε Bytes)

/-! ## Objects in memory -/

namespace Reifieds

variable {α ε τ : Type} [Inhabited τ] (traits : AllocatorTraits α) (value : ReifiedValue ε τ)

/-- `destroy_self` -/
def destroySelf (allocator : α) (b : Nat) (h : Heap α τ) : Option (Heap α τ) :=
  (h.destroy b).bind (Heap.deallocate traits.toAllocators allocator b)

/-- `if (mReified != nullptr) mReified->destroy_self(mAllocator)` -/
def release (self : AnyReified α) (h : Heap α τ) : Option (Heap α τ) :=
  match self.reified with
  | none => some h
  | some b => destroySelf traits self.allocator b h

def put (which : Nat) (self : AnyReified α) (s : Reifieds α τ) : Reifieds α τ :=
  { s with objects := Function.update s.objects which (some self) }

def construct (which : Nat) (allocator : α) (s : Reifieds α τ) :
    Option (ReifiedReply ε × Reifieds α τ) :=
  match s.objects which with
  | none => some (.done, s.put which ⟨none, allocator⟩)
  | some _ => none

def reify (which : Nat) (allocator : α) (reifying : Reifying ε τ) (s : Reifieds α τ) :
    Option (ReifiedReply ε × Reifieds α τ) :=
  match s.objects which with
  | some _ => none
  | none =>
    let (self, h) := s.heap.allocate allocator
    match reifying with
    | .noMemory => some (.notEnoughMemory, s)
    | .throws => some (.notEnoughMemory, { s with heap := h, lost := self :: s.lost })
    | .decoded (.error e) => do
      let h ← h.construct self default
      let h ← destroySelf traits allocator self h
      pure (.failed e, { s with heap := h })
    | .decoded (.ok x) => do
      let h ← h.construct self default
      let h ← h.assign self x
      pure (.done, { s with heap := h }.put which ⟨some self, allocator⟩)

def moveConstruct (which other : Nat) (s : Reifieds α τ) :
    Option (ReifiedReply ε × Reifieds α τ) :=
  match s.objects which, s.objects other with
  | none, some from_ => some (.done, (s.put which from_).put other { from_ with reified := none })
  | _, _ => none

/-- `move_to`, which throws where there is no address. -/
def moveTo (target source : α) (self : Nat) (moving : Moving) (s : Reifieds α τ) :
    Option (Option Nat × Reifieds α τ) :=
  let (moved, h) := s.heap.allocate target
  match moving with
  | .noMemory => some (none, s)
  | .throws => some (none, { s with heap := h, lost := moved :: s.lost })
  | .succeeds => do
    let x ← h.object self
    let h ← h.construct moved x
    let h ← destroySelf traits source self h
    pure (some moved, { s with heap := h })

def moveAssign (which other : Nat) (moving : Moving) (s : Reifieds α τ) :
    Option (ReifiedReply ε × Reifieds α τ) :=
  match s.objects which, s.objects other with
  | some self, some from_ =>
    if which = other then some (.done, s)
    else if traits.isAlwaysEqual || traits.propagateOnContainerMoveAssignment then do
      let h ← release traits self s.heap
      let allocator :=
        if traits.propagateOnContainerMoveAssignment then from_.allocator else self.allocator
      pure (.done, ({ s with heap := h }.put which ⟨from_.reified, allocator⟩).put other
        { from_ with reified := none })
    else if traits.equal self.allocator from_.allocator || from_.reified.isNone then do
      let h ← release traits self s.heap
      pure (.done, ({ s with heap := h }.put which ⟨from_.reified, self.allocator⟩).put other
        { from_ with reified := none })
    else do
      let b ← from_.reified
      let (moved, s) ← s.moveTo traits self.allocator from_.allocator b moving
      match moved with
      | none => pure (.threw, s)
      | some moved =>
        let h ← release traits self s.heap
        pure (.done, ({ s with heap := h }.put which ⟨some moved, self.allocator⟩).put other
          { from_ with reified := none })
  | _, _ => none

/-- `swap`, which asserts that allocators are equal if they stay where they are. -/
def swap (left right : Nat) (s : Reifieds α τ) : Option (ReifiedReply ε × Reifieds α τ) :=
  match s.objects left, s.objects right with
  | some l, some r =>
    if traits.propagateOnContainerSwap then some (.done, (s.put left r).put right l)
    else if traits.equal l.allocator r.allocator then
      some (.done, (s.put left { r with allocator := l.allocator }).put right
        { l with allocator := r.allocator })
    else none
  | _, _ => none

def destroy (which : Nat) (s : Reifieds α τ) : Option (ReifiedReply ε × Reifieds α τ) :=
  match s.objects which with
  | none => none
  | some self => do
    let h ← release traits self s.heap
    pure (.done, { s with heap := h, objects := Function.update s.objects which none })

/-- `codec<any_reified>` -/
def encode (which : Nat) (s : Reifieds α τ) : Option (ReifiedReply ε × Reifieds α τ) :=
  match s.objects which with
  | none => none
  | some ⟨none, _⟩ => some (.encoded nullValue.length nullValue, s)
  | some ⟨some b, _⟩ => (s.heap.object b).map fun x =>
    (.encoded (value.encodedSize x) (value.encode x), s)

def stringify (which : Nat) (formatSpec : Bytes) (s : Reifieds α τ) :
    Option (ReifiedReply ε × Reifieds α τ) := do
  let self ← s.objects which
  let b ← self.reified
  let x ← s.heap.object b
  pure (.text (value.stringify formatSpec x), s)

def step : ReifiedOp α ε τ → Reifieds α τ → Option (ReifiedReply ε × Reifieds α τ)
  | .construct which allocator, s => s.construct which allocator
  | .reify which allocator reifying, s => s.reify traits which allocator reifying
  | .moveConstruct which other, s => s.moveConstruct which other
  | .moveAssign which other moving, s => s.moveAssign traits which other moving
  | .swap left right, s => s.swap traits left right
  | .destroy which, s => s.destroy traits which
  | .encode which, s => s.encode value which
  | .stringify which formatSpec, s => s.stringify value which formatSpec

end Reifieds

/-! ## Slots -/

/-- What an object is for. -/
structure Slot (α τ : Type) where
  value : Option τ
  allocator : α

abbrev Slots (α τ : Type) := Nat → Option (Slot α τ)

namespace Slots

variable {α ε τ : Type} (traits : AllocatorTraits α) (value : ReifiedValue ε τ)

def put (which : Nat) (slot : Slot α τ) (s : Slots α τ) : Slots α τ :=
  Function.update s which (some slot)

/-- A value can be moved without memory for it, unless its allocator has to stay. -/
def moves (self from_ : Slot α τ) (moving : Moving) : Bool :=
  traits.isAlwaysEqual || traits.propagateOnContainerMoveAssignment ||
    traits.equal self.allocator from_.allocator || from_.value.isNone || moving = .succeeds

def step : ReifiedOp α ε τ → Slots α τ → Option (ReifiedReply ε × Slots α τ)
  | .construct which allocator, s =>
    match s which with
    | none => some (.done, s.put which ⟨none, allocator⟩)
    | some _ => none
  | .reify which allocator reifying, s =>
    match s which, reifying with
    | some _, _ => none
    | none, .noMemory | none, .throws => some (.notEnoughMemory, s)
    | none, .decoded (.error e) => some (.failed e, s)
    | none, .decoded (.ok x) => some (.done, s.put which ⟨some x, allocator⟩)
  | .moveConstruct which other, s =>
    match s which, s other with
    | none, some from_ => some (.done, (s.put which from_).put other { from_ with value := none })
    | _, _ => none
  | .moveAssign which other moving, s =>
    match s which, s other with
    | some self, some from_ =>
      if which = other then some (.done, s)
      else if moves traits self from_ moving then
        let allocator :=
          if traits.propagateOnContainerMoveAssignment then from_.allocator else self.allocator
        some (.done, (s.put which ⟨from_.value, allocator⟩).put other { from_ with value := none })
      else some (.threw, s)
    | _, _ => none
  | .swap left right, s =>
    match s left, s right with
    | some l, some r =>
      if traits.propagateOnContainerSwap then some (.done, (s.put left r).put right l)
      else if traits.equal l.allocator r.allocator then
        some (.done, (s.put left { r with allocator := l.allocator }).put right
          { l with allocator := r.allocator })
      else none
    | _, _ => none
  | .destroy which, s => (s which).map fun _ => (.done, Function.update s which none)
  | .encode which, s => (s which).map fun self => (match self.value with
    | none => .encoded nullValue.length nullValue
    | some x => .encoded (value.encodedSize x) (value.encode x), s)
  | .stringify which formatSpec, s => ((s which).bind Slot.value).map fun x =>
    (.text (value.stringify formatSpec x), s)

end Slots

namespace Reifieds

section Owned

variable {α ε τ : Type} {traits : AllocatorTraits α} {s : Reifieds α τ} {h : Heap α τ}

/-- What an object holds. -/
def slot (h : Heap α τ) (self : AnyReified α) : Slot α τ :=
  ⟨self.reified.bind h.object, self.allocator⟩

def slots (s : Reifieds α τ) : Slots α τ := fun which => (s.objects which).map (slot s.heap)

/-- Each block has one owner, or nobody has a pointer to it. -/
structure Owned (traits : AllocatorTraits α) (s : Reifieds α τ) : Prop where
  holds : ∀ which self b, s.objects which = some self → self.reified = some b →
    ∃ a x, s.heap.block b = some ⟨a, some x⟩ ∧ traits.equal a self.allocator = true
  apart : ∀ which other self self' b, s.objects which = some self → s.objects other = some self' →
    self.reified = some b → self'.reified = some b → which = other
  kept : ∀ b blk, s.heap.block b = some blk →
    b ∈ s.lost ∨ ∃ which self, s.objects which = some self ∧ self.reified = some b
  lost : ∀ b ∈ s.lost, ∃ a, s.heap.block b = some ⟨a, none⟩

@[simp, grind =] theorem put_objects (which v : Nat) (self : AnyReified α) :
    (s.put which self).objects v = if v = which then some self else s.objects v :=
  Function.update_apply ..

@[simp, grind =] theorem put_heap (which : Nat) (self : AnyReified α) :
    (s.put which self).heap = s.heap := rfl

@[simp, grind =] theorem put_lost (which : Nat) (self : AnyReified α) :
    (s.put which self).lost = s.lost := rfl

@[simp] theorem put_put (which : Nat) (self self' : AnyReified α) :
    (s.put which self).put which self' = s.put which self' := by
  simp only [put, Function.update_idem]

theorem put_overwrite {which other : Nat} (hne : which ≠ other) (self old new : AnyReified α) :
    ((s.put other old).put which self).put other new = (s.put which self).put other new := by
  simp only [put, Function.update_comm hne, Function.update_idem]

@[grind =] theorem slots_apply (v : Nat) : s.slots v = (s.objects v).map (slot s.heap) := rfl

@[grind =] theorem slots_put (t : Slots α τ) (which v : Nat) (self : Slot α τ) :
    t.put which self v = if v = which then some self else t v := Function.update_apply ..

/-- An object without a value. -/
theorem Owned.put_none (hs : s.Owned traits) {which : Nat} {self : AnyReified α}
    (hnone : ∀ old, s.objects which = some old → old.reified = none) (hself : self.reified = none) :
    (s.put which self).Owned traits := by
  constructor
  · grind [hs.holds]
  · grind [hs.apart]
  · intro b blk hb
    rcases hs.kept b blk hb with hlost | ⟨v, owner, hv, howner⟩
    · exact .inl hlost
    · exact .inr ⟨v, owner, by grind, howner⟩
  · grind [hs.lost]

theorem Owned.slot_concat (hs : s.Owned traits) (which : Nat) {self : AnyReified α}
    (hwhich : s.objects which = some self) (blk : Option (Block α τ)) :
    slot (s.heap ++ [blk]) self = slot s.heap self := by
  cases hself : self.reified with
  | none => simp [slot, hself]
  | some b =>
    obtain ⟨a, x, hblock, -⟩ := hs.holds which self b hwhich hself
    have hobject : Heap.object b (s.heap ++ [blk]) = s.heap.object b := by
      grind [Heap.object]
    simp [slot, hself, hobject]

theorem slot_congr (hsame : ∀ b, h.block b = s.heap.block b) : slot h = slot s.heap := by
  funext self
  simp only [slot, Heap.object, hsame]

theorem Owned.congr (hs : s.Owned traits) (hsame : ∀ b, h.block b = s.heap.block b) :
    Owned traits { s with heap := h } := by
  constructor
  · grind [hs.holds]
  · exact hs.apart
  · grind [hs.kept]
  · grind [hs.lost]

/-- A new object with a value. -/
theorem Owned.put_new (hs : s.Owned traits) {which : Nat}
    (hnone : ∀ old, s.objects which = some old → old.reified = none) (a : α) (x : τ) :
    (put which ⟨some s.heap.length, a⟩
      { s with heap := s.heap ++ [some ⟨a, some x⟩] }).Owned traits := by
  have hrefl := traits.equivalence.refl a
  constructor
  · intro v self b hv hself
    by_cases hvw : v = which
    · refine ⟨a, x, ?_, ?_⟩ <;> grind
    · obtain ⟨a', x', hblock, hequal⟩ := hs.holds v self b (by grind) hself
      exact ⟨a', x', by grind, hequal⟩
  · intro v w self self' b hv hw hself hself'
    have hlt : ∀ v self b, s.objects v = some self → self.reified = some b → b < s.heap.length := by
      intro v self b hv hself
      obtain ⟨a', x', hblock, -⟩ := hs.holds v self b hv hself
      exact Heap.lt_of_block hblock
    grind [hs.apart]
  · intro b blk hb
    by_cases hlast : b = s.heap.length
    · exact .inr ⟨which, ⟨some s.heap.length, a⟩, by grind, by rw [hlast]⟩
    · rcases hs.kept b blk (by grind) with hlost | ⟨v, owner, hv, howner⟩
      · exact .inl hlost
      · exact .inr ⟨v, owner, by grind, howner⟩
  · intro b hb
    obtain ⟨a', hblock⟩ := hs.lost b hb
    exact ⟨a', by grind⟩

/-- A block that nobody has a pointer to. -/
theorem Owned.lose (hs : s.Owned traits) (a : α) :
    Owned traits
      { s with heap := s.heap ++ [some ⟨a, none⟩], lost := s.heap.length :: s.lost } := by
  constructor
  · intro v self b hv hself
    obtain ⟨a', x', hblock, hequal⟩ := hs.holds v self b hv hself
    exact ⟨a', x', by grind, hequal⟩
  · exact hs.apart
  · intro b blk hb
    by_cases hlast : b = s.heap.length
    · exact .inl (by simp [hlast])
    · rcases hs.kept b blk (by grind) with hlost | howned
      · exact .inl (List.mem_cons_of_mem _ hlost)
      · exact .inr howned
  · intro b hb
    rcases List.mem_cons.mp hb with rfl | hb
    · exact ⟨a, by grind⟩
    · obtain ⟨a', hblock⟩ := hs.lost b hb
      exact ⟨a', by grind⟩

theorem Owned.slots_lose (hs : s.Owned traits) (a : α) :
    slots { s with heap := s.heap ++ [some ⟨a, none⟩], lost := s.heap.length :: s.lost } =
      s.slots := by
  funext v
  cases hv : s.objects v with
  | none => grind
  | some object =>
    have hobject := hs.slot_concat v hv (some ⟨a, none⟩)
    grind

/-- An object that gives up its value. -/
theorem Owned.release (hs : s.Owned traits) {which : Nat} {self : AnyReified α}
    (hwhich : s.objects which = some self) (a : α) : ∃ h, release traits self s.heap = some h ∧
      ({ s with heap := h }.put which ⟨none, a⟩).Owned traits ∧
      ∀ v other, v ≠ which → s.objects v = some other → slot h other = slot s.heap other := by
  cases hself : self.reified with
  | none =>
    refine ⟨s.heap, by rw [Reifieds.release, hself], ?_, fun _ _ _ _ => rfl⟩
    exact hs.put_none (by grind) rfl
  | some b =>
    obtain ⟨a', x, hblock, hequal⟩ := hs.holds which self b hwhich hself
    refine ⟨s.heap.set b none, ?_, ?_, ?_⟩
    · rw [Reifieds.release, hself]
      exact Heap.destroy_deallocate hblock hequal
    · constructor
      · intro v other c hv hother
        have hne : c ≠ b := by grind [hs.apart]
        obtain ⟨a'', x', hblock', hequal'⟩ := hs.holds v other c (by grind) hother
        exact ⟨a'', x', by grind, hequal'⟩
      · grind [hs.apart]
      · intro c blk hc
        rcases hs.kept c blk (by grind) with hlost | ⟨v, owner, hv, howner⟩
        · exact .inl hlost
        · exact .inr ⟨v, owner, by grind, howner⟩
      · intro c hc
        obtain ⟨a'', hblock'⟩ := hs.lost c hc
        exact ⟨a'', by grind⟩
    · intro v other hv hother
      have hne : other.reified ≠ some b := fun heq =>
        hv (hs.apart v which other self b hother hwhich heq hself)
      cases hreified : other.reified with
      | none => simp [slot, hreified]
      | some c =>
        have hobject : Heap.object c (s.heap.set b none) = s.heap.object c := by
          grind [Heap.object]
        simp [slot, hreified, hobject]

/-- A value that changes its owner. -/
theorem Owned.transfer (hs : s.Owned traits) {which other : Nat} (hne : which ≠ other)
    {self from_ rest : AnyReified α} (hother : s.objects other = some from_)
    (hwhich : ∀ old, s.objects which = some old → old.reified = none)
    (hself : self.reified = from_.reified) (hrest : rest.reified = none)
    (hequal : from_.reified ≠ none → traits.equal from_.allocator self.allocator = true) :
    ((s.put which self).put other rest).Owned traits := by
  constructor
  · intro v owner b hv howner
    by_cases hvw : v = which
    · have heq : owner = self := by grind
      obtain ⟨a, x, hblock, ha⟩ := hs.holds other from_ b hother (by grind)
      have hfrom := hequal (by grind)
      exact ⟨a, x, hblock, heq ▸ traits.equivalence.trans ha hfrom⟩
    · exact hs.holds v owner b (by grind) howner
  · grind [hs.apart]
  · intro b blk hb
    rcases hs.kept b blk hb with hlost | ⟨v, owner, hv, howner⟩
    · exact .inl hlost
    · by_cases hvo : v = other
      · exact .inr ⟨which, self, by grind, by grind⟩
      · exact .inr ⟨v, owner, by grind, howner⟩
  · exact hs.lost

/-- A value that is moved to an object, whose own is released. -/
theorem Owned.replace (hs : s.Owned traits) {which other : Nat} (hne : which ≠ other)
    {self from_ rest : AnyReified α} (hwhich : s.objects which = some self)
    (hother : s.objects other = some from_) (hrest : rest.reified = none) {a : α}
    (hequal : from_.reified ≠ none → traits.equal from_.allocator a = true) :
    ∃ h, Reifieds.release traits self s.heap = some h ∧
      ((put which ⟨from_.reified, a⟩ { s with heap := h }).put other rest).Owned traits ∧
      ((put which ⟨from_.reified, a⟩ { s with heap := h }).put other rest).slots =
        (s.slots.put which ⟨(slot s.heap from_).value, a⟩).put other ⟨none, rest.allocator⟩ := by
  obtain ⟨h, hrelease, howned, hsame⟩ := hs.release hwhich self.allocator
  refine ⟨h, hrelease, ?_, ?_⟩
  · have hother' : (put which ⟨none, self.allocator⟩ { s with heap := h }).objects other =
        some from_ := by grind
    have htransfer : ((put which ⟨from_.reified, a⟩ (put which ⟨none, self.allocator⟩
        { s with heap := h })).put other rest).Owned traits :=
      howned.transfer hne hother' (by grind) rfl hrest hequal
    rwa [put_put] at htransfer
  · have hfrom := hsame other from_ hne.symm hother
    funext v
    by_cases hvo : v = other
    · grind [slot]
    · by_cases hvw : v = which
      · grind [slot]
      · cases hv : s.objects v with
        | none => grind
        | some object =>
          have hobject := hsame v object hvw hv
          grind

/-- A value that is moved to memory from another allocator. -/
theorem Owned.moveTo (hs : s.Owned traits) {other b : Nat} {from_ : AnyReified α}
    (hother : s.objects other = some from_) (hb : from_.reified = some b) (target : α) :
    ∃ h, Reifieds.moveTo traits target from_.allocator b .succeeds s =
        some (some s.heap.length, { s with heap := h }) ∧
      (put other ⟨some s.heap.length, target⟩ { s with heap := h }).Owned traits ∧
      slot h ⟨some s.heap.length, target⟩ = ⟨(slot s.heap from_).value, target⟩ ∧
      ∀ v object, v ≠ other → s.objects v = some object → slot h object = slot s.heap object := by
  obtain ⟨a, x, hblock, hequal⟩ := hs.holds other from_ b hother hb
  have hlt := Heap.lt_of_block hblock
  have hmoved : Heap.block (s.heap ++ [some ⟨target, some x⟩]) b = some ⟨a, some x⟩ := by grind
  obtain ⟨h, hrelease, howned, hsame⟩ := hs.release hother from_.allocator
  obtain rfl : s.heap.set b none = h := by
    simp only [Reifieds.release, hb] at hrelease
    exact Option.some.inj ((Heap.destroy_deallocate hblock hequal).symm.trans hrelease)
  have hset : List.set (s.heap ++ [some ⟨target, some x⟩]) b none =
      s.heap.set b none ++ [some ⟨target, some x⟩] := List.set_append_left _ _ hlt
  refine ⟨s.heap.set b none ++ [some ⟨target, some x⟩], ?_, ?_, ?_, fun v object hv hobject => ?_⟩
  · have hobject : Heap.object b (s.heap ++ [some ⟨target, none⟩]) = some x := by
      grind [Heap.object]
    simp only [Reifieds.moveTo, Heap.allocate, hobject, Heap.allocate_construct, destroySelf,
      Heap.destroy_deallocate hmoved hequal, hset, Option.bind_eq_bind, Option.bind_some]
    rfl
  · have hnew := howned.put_new (by grind : ∀ old, (put other ⟨none, from_.allocator⟩
      { s with heap := s.heap.set b none }).objects other = some old → old.reified = none) target x
    simpa only [put, Function.update_idem, List.length_set] using hnew
  · have hold : s.heap.object b = some x := Heap.object_eq hblock
    have hlength : (s.heap.set b none).length = s.heap.length := List.length_set
    have hnew : Heap.object s.heap.length (s.heap.set b none ++ [some ⟨target, some x⟩]) =
        some x := by grind [Heap.object]
    simp [slot, hb, hold, hnew]
  · rw [← hsame v object hv hobject]
    exact howned.slot_concat v (by grind) _

/-- A value that is moved to an object whose allocator has to stay. -/
theorem Owned.moveTo_replace (hs : s.Owned traits) {which other b : Nat} (hne : which ≠ other)
    {self from_ : AnyReified α} (hwhich : s.objects which = some self)
    (hother : s.objects other = some from_) (hb : from_.reified = some b) :
    ∃ h h', Reifieds.moveTo traits self.allocator from_.allocator b .succeeds s =
        some (some s.heap.length, { s with heap := h }) ∧
      Reifieds.release traits self h = some h' ∧
      ((put which ⟨some s.heap.length, self.allocator⟩ { s with heap := h' }).put other
        { from_ with reified := none }).Owned traits ∧
      ((put which ⟨some s.heap.length, self.allocator⟩ { s with heap := h' }).put other
        { from_ with reified := none }).slots =
        (s.slots.put which ⟨(slot s.heap from_).value, self.allocator⟩).put other
          ⟨none, from_.allocator⟩ := by
  obtain ⟨h, hmove, howned, hmoved, hsame⟩ := hs.moveTo hother hb self.allocator
  -- for a moment, the other object owns the new memory
  have hself : (put other ⟨some s.heap.length, self.allocator⟩
      { s with heap := h }).objects which = some self := by grind
  have hnew : (put other ⟨some s.heap.length, self.allocator⟩
      { s with heap := h }).objects other = some ⟨some s.heap.length, self.allocator⟩ := by grind
  have hrest : ({ from_ with reified := none } : AnyReified α).reified = none := rfl
  obtain ⟨h', hrelease, howned', hslots⟩ := howned.replace hne hself hnew hrest fun _ =>
    traits.equivalence.refl self.allocator
  have hput := put_overwrite (s := { s with heap := h' }) hne
    ⟨some s.heap.length, self.allocator⟩ ⟨some s.heap.length, self.allocator⟩
    { from_ with reified := none }
  refine ⟨h, h', hmove, hrelease, ?_, ?_⟩
  · rw [← hput]
    exact howned'
  · rw [← hput]
    refine hslots.trans ?_
    funext v
    by_cases hvo : v = other
    · grind
    · by_cases hvw : v = which
      · grind
      · cases hv : s.objects v with
        | none => grind
        | some object =>
          have hobject := hsame v object hvo hv
          grind

/-- An object that is not there any more. -/
theorem Owned.drop (hs : s.Owned traits) {which : Nat}
    (hnone : ∀ old, s.objects which = some old → old.reified = none) :
    Owned traits { s with objects := Function.update s.objects which none } := by
  constructor
  · grind [hs.holds, Function.update_apply]
  · grind [hs.apart, Function.update_apply]
  · intro b blk hb
    rcases hs.kept b blk hb with hlost | ⟨v, owner, hv, howner⟩
    · exact .inl hlost
    · exact .inr ⟨v, owner, by grind [Function.update_apply], howner⟩
  · exact hs.lost

theorem Owned.swap (hs : s.Owned traits) {left right : Nat} {l r : AnyReified α}
    (hl : s.objects left = some l) (hr : s.objects right = some r) {a a' : α}
    (hequal : traits.equal r.allocator a = true) (hequal' : traits.equal l.allocator a' = true) :
    ((s.put left ⟨r.reified, a⟩).put right ⟨l.reified, a'⟩).Owned traits := by
  constructor
  · intro v owner b hv howner
    by_cases hvr : v = right
    · obtain ⟨a₁, x, hblock, ha₁⟩ := hs.holds left l b hl (by grind)
      have heq : owner = ⟨l.reified, a'⟩ := by grind
      exact ⟨a₁, x, hblock, heq ▸ traits.equivalence.trans ha₁ hequal'⟩
    · by_cases hvl : v = left
      · obtain ⟨a₁, x, hblock, ha₁⟩ := hs.holds right r b hr (by grind)
        have heq : owner = ⟨r.reified, a⟩ := by grind
        exact ⟨a₁, x, hblock, heq ▸ traits.equivalence.trans ha₁ hequal⟩
      · exact hs.holds v owner b (by grind) howner
  · grind [hs.apart]
  · intro b blk hb
    rcases hs.kept b blk hb with hlost | ⟨v, owner, hv, howner⟩
    · exact .inl hlost
    · by_cases hvl : v = left
      · exact .inr ⟨right, ⟨l.reified, a'⟩, by grind, by grind⟩
      · by_cases hvr : v = right
        · exact .inr ⟨left, ⟨r.reified, a⟩, by grind, by grind⟩
        · exact .inr ⟨v, owner, by grind, howner⟩
  · exact hs.lost

end Owned

end Reifieds

end Deeplog.Detail

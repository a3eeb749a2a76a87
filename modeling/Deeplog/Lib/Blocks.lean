import Mathlib.Data.List.Basic

/-!
# Blocks of memory

Memory comes in blocks from allocators, an object is constructed in a block, and is destroyed before
the block goes back to an allocator that equals the one it came from. Whatever else is done with a
block is undefined.
-/

namespace Blocks

variable {α τ : Type}

/-- Which allocators can release each other's memory. -/
structure Allocators (α : Type) where
  equal : α → α → Bool
  equivalence : Equivalence fun a b => equal a b = true

structure Block (α τ : Type) where
  allocator : α
  object : Option τ

/-- Blocks by their addresses; an address is used once. -/
abbrev Heap (α τ : Type) := List (Option (Block α τ))

namespace Heap

/-- The block at an address, unless it has been released. -/
def block (h : Heap α τ) (b : Nat) : Option (Block α τ) := h[b]?.join

def allocate (a : α) (h : Heap α τ) : Nat × Heap α τ := (h.length, h ++ [some ⟨a, none⟩])

def construct (b : Nat) (x : τ) (h : Heap α τ) : Option (Heap α τ) :=
  match h.block b with
  | some ⟨a, none⟩ => some (h.set b (some ⟨a, some x⟩))
  | _ => none

/-- An object changes in place. -/
def assign (b : Nat) (x : τ) (h : Heap α τ) : Option (Heap α τ) :=
  match h.block b with
  | some ⟨a, some _⟩ => some (h.set b (some ⟨a, some x⟩))
  | _ => none

def object (b : Nat) (h : Heap α τ) : Option τ := (h.block b).bind Block.object

def destroy (b : Nat) (h : Heap α τ) : Option (Heap α τ) :=
  match h.block b with
  | some ⟨a, some _⟩ => some (h.set b (some ⟨a, none⟩))
  | _ => none

def deallocate (allocators : Allocators α) (a : α) (b : Nat) (h : Heap α τ) :
    Option (Heap α τ) :=
  match h.block b with
  | some ⟨a', none⟩ => if allocators.equal a' a then some (h.set b none) else none
  | _ => none

variable {h : Heap α τ} {b c : Nat} {a : α} {x : τ}

@[grind =] theorem block_concat (blk : Option (Block α τ)) :
    block (h ++ [blk]) b = if b = h.length then blk else h.block b := by
  grind [block]

@[grind →] theorem lt_of_block {blk : Block α τ} (hb : h.block b = some blk) : b < h.length := by
  grind [block]

@[grind =] theorem block_set (blk : Option (Block α τ)) :
    block (h.set b blk) c = if c = b ∧ b < h.length then blk else h.block c := by
  grind [block]

/-- A block that is released at once. -/
theorem block_released (blk : Option (Block α τ)) (b : Nat) :
    block (List.set (h ++ [blk]) h.length none) b = h.block b := by
  have hnone : h.block h.length = none := by simp [block]
  have hset : List.set (h ++ [blk]) h.length none = h ++ [none] := by simp
  rw [hset]
  grind

/-- An object in a block of its own. -/
theorem allocate_construct (a : α) (x : τ) (h : Heap α τ) :
    construct h.length x (h ++ [some ⟨a, none⟩]) = some (h ++ [some ⟨a, some x⟩]) := by
  have hblock : block (h ++ [some ⟨a, none⟩]) h.length = some ⟨a, none⟩ := by grind
  rw [construct, hblock]
  simp

/-- An object that has just been constructed. -/
theorem assign_concat (a : α) (x y : τ) (h : Heap α τ) :
    assign h.length y (h ++ [some ⟨a, some x⟩]) = some (h ++ [some ⟨a, some y⟩]) := by
  have hblock : block (h ++ [some ⟨a, some x⟩]) h.length = some ⟨a, some x⟩ := by grind
  rw [assign, hblock]
  simp

theorem object_eq (hb : h.block b = some ⟨a, some x⟩) : h.object b = some x := by
  rw [object, hb]
  rfl

/-- An object is destroyed, and its block released. -/
theorem destroy_deallocate {allocators : Allocators α} {a' : α}
    (hb : h.block b = some ⟨a', some x⟩) (hequal : allocators.equal a' a = true) :
    (h.destroy b).bind (deallocate allocators a b) = some (h.set b none) := by
  have hlt := lt_of_block hb
  have hblock : block (h.set b (some ⟨a', none⟩)) b = some ⟨a', none⟩ := by grind
  rw [destroy, hb]
  simp only [Option.bind_some]
  rw [deallocate, hblock]
  simp [hequal]

end Heap

end Blocks

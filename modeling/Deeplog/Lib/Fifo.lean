import Mathlib.Data.List.Basic
import Mathlib.Logic.Relation

/-!
# A queue whose entries are filled out of order

Entries are appended empty, filled once in any order, and taken from the front as far as they
are filled. What has been taken is always a prefix of the entries, and a filled entry stays
what it is.
-/

namespace Fifo

variable {α : Type}

/-- All entries ever appended, and what has been taken from the front. -/
structure Queue (α : Type) where
  entries : List (Option α)
  taken : List α

/-- One step of the queue. -/
inductive Step : Queue α → Queue α → Prop
  | append (q : Queue α) : Step q { q with entries := q.entries ++ [none] }
  | fill (q : Queue α) (i : Nat) (x : α) (h : q.entries[i]? = some none) :
    Step q { q with entries := q.entries.set i (some x) }
  | take (q : Queue α) (xs : List α) (h : xs.map some <+: q.entries.drop q.taken.length) :
    Step q { q with taken := q.taken ++ xs }

abbrev Steps : Queue α → Queue α → Prop := Relation.ReflTransGen Step

/-- What was taken is what was filled, in the order in which the entries were appended. -/
def Queue.Ordered (q : Queue α) : Prop := q.taken.map some <+: q.entries

variable {q q' : Queue α}

theorem Step.filled_stays (h : Step q q') {i : Nat} {x : α} (hi : q.entries[i]? = some (some x)) :
    q'.entries[i]? = some (some x) := by
  cases h with
  | append =>
    have hlt := (List.getElem?_eq_some_iff.mp hi).1
    simpa [List.getElem?_append_left hlt] using hi
  | fill j y hj => grind
  | take => exact hi

theorem Steps.filled_stays (h : Steps q q') {i : Nat} {x : α}
    (hi : q.entries[i]? = some (some x)) : q'.entries[i]? = some (some x) := by
  induction h with
  | refl => exact hi
  | tail _ hstep ih => exact hstep.filled_stays ih

theorem Step.taken_prefix (h : Step q q') : q.taken <+: q'.taken := by
  cases h with
  | append => exact List.prefix_rfl
  | fill => exact List.prefix_rfl
  | take => exact List.prefix_append ..

theorem Steps.taken_prefix (h : Steps q q') : q.taken <+: q'.taken := by
  induction h with
  | refl => exact List.prefix_rfl
  | tail _ hstep ih => exact ih.trans hstep.taken_prefix

theorem Step.ordered (h : Step q q') (hq : q.Ordered) : q'.Ordered := by
  unfold Queue.Ordered at *
  cases h with
  | append => exact hq.trans (List.prefix_append ..)
  | fill i x hi =>
    -- an empty entry lies behind everything that was taken
    rw [List.prefix_iff_getElem?] at hq ⊢
    grind
  | take xs hxs =>
    obtain ⟨rest, hrest⟩ := hq
    obtain ⟨more, hmore⟩ := hxs
    refine ⟨more, ?_⟩
    have hlen : q.taken.length = (q.taken.map some).length := by simp
    rw [← hrest, hlen, List.drop_left] at hmore
    rw [← hrest, ← hmore]
    simp

theorem Steps.ordered (h : Steps q q') (hq : q.Ordered) : q'.Ordered := by
  induction h with
  | refl => exact hq
  | tail _ hstep ih => exact hstep.ordered ih

end Fifo

import Mathlib.Data.List.Basic
import Mathlib.Logic.ExistsUnique

/-!
# Openings and closings

A history of things that are opened and closed is paired if what is closed has been opened
before, exactly once, and is not closed again.
-/

namespace Pairing

inductive Event (α : Type) where
  | opened (a : α)
  | closed (a : α)
  deriving DecidableEq

variable {α : Type} {es : List (Event α)} {e : Event α} {a b : α}

structure Paired (es : List (Event α)) : Prop where
  opened : ∀ (i : Nat) a, es[i]? = some (.closed a) → ∃! j, j < i ∧ es[j]? = some (.opened a)
  once : ∀ (i j : Nat) a, es[i]? = some (.closed a) → es[j]? = some (.closed a) → i = j

/-- There is exactly one opening of `a`. -/
def OpenedOnce (es : List (Event α)) (a : α) : Prop := ∃! i : Nat, es[i]? = some (.opened a)

theorem Paired.nil : Paired ([] : List (Event α)) :=
  ⟨fun _ _ h => by simp at h, fun _ _ _ h => by simp at h⟩

theorem getElem?_concat_eq_some {x : Event α} {i : Nat} :
    (es ++ [e])[i]? = some x ↔ es[i]? = some x ∨ (i = es.length ∧ e = x) := by
  grind

theorem OpenedOnce.concat_of_ne (h : OpenedOnce es a) (hne : e ≠ .opened a) :
    OpenedOnce (es ++ [e]) a := by
  obtain ⟨i, hi, huniq⟩ := h
  refine ⟨i, getElem?_concat_eq_some.mpr (.inl hi), fun j hj => ?_⟩
  rcases getElem?_concat_eq_some.mp hj with hj | ⟨-, rfl⟩
  · exact huniq j hj
  · exact absurd rfl hne

theorem OpenedOnce.concat_self (h : .opened a ∉ es) : OpenedOnce (es ++ [.opened a]) a := by
  refine ⟨es.length, getElem?_concat_eq_some.mpr (.inr ⟨rfl, rfl⟩), fun j hj => ?_⟩
  rcases getElem?_concat_eq_some.mp hj with hj | ⟨rfl, -⟩
  · exact absurd (List.mem_of_getElem? hj) h
  · rfl

/-- What comes later does not change what there was before. -/
theorem existsUnique_before_concat {i : Nat} (hi : i < es.length + 1)
    (h : ∃! j, j < i ∧ es[j]? = some (.opened a)) :
    ∃! j, j < i ∧ (es ++ [e])[j]? = some (.opened a) := by
  obtain ⟨j, ⟨hlt, hj⟩, huniq⟩ := h
  refine ⟨j, ⟨hlt, getElem?_concat_eq_some.mpr (.inl hj)⟩, fun k ⟨hk, hopened⟩ => ?_⟩
  rcases getElem?_concat_eq_some.mp hopened with hopened | ⟨rfl, -⟩
  · exact huniq k ⟨hk, hopened⟩
  · omega

theorem Paired.concat_opened (h : Paired es) (a : α) : Paired (es ++ [.opened a]) := by
  constructor
  · intro i b hi
    rcases getElem?_concat_eq_some.mp hi with hi | ⟨-, hne⟩
    · have hlt : i < es.length := (List.getElem?_eq_some_iff.mp hi).1
      exact existsUnique_before_concat (by omega) (h.opened i b hi)
    · cases hne
  · intro i j b hi hj
    rcases getElem?_concat_eq_some.mp hi with hi | ⟨-, hne⟩
    · rcases getElem?_concat_eq_some.mp hj with hj | ⟨-, hne⟩
      · exact h.once i j b hi hj
      · cases hne
    · cases hne

theorem Paired.concat_closed (h : Paired es) (ho : OpenedOnce es a) (hc : .closed a ∉ es) :
    Paired (es ++ [.closed a]) := by
  constructor
  · intro i b hi
    rcases getElem?_concat_eq_some.mp hi with hi | ⟨rfl, heq⟩
    · have hlt : i < es.length := (List.getElem?_eq_some_iff.mp hi).1
      exact existsUnique_before_concat (by omega) (h.opened i b hi)
    · cases heq
      refine existsUnique_before_concat (by omega) ?_
      obtain ⟨j, hj, huniq⟩ := ho
      exact ⟨j, ⟨(List.getElem?_eq_some_iff.mp hj).1, hj⟩, fun k hk => huniq k hk.2⟩
  · intro i j b hi hj
    rcases getElem?_concat_eq_some.mp hi with hi | ⟨rfl, heq⟩
    · rcases getElem?_concat_eq_some.mp hj with hj | ⟨-, heq⟩
      · exact h.once i j b hi hj
      · cases heq
        exact absurd (List.mem_of_getElem? hi) hc
    · cases heq
      rcases getElem?_concat_eq_some.mp hj with hj | ⟨rfl, -⟩
      · exact absurd (List.mem_of_getElem? hj) hc
      · rfl

/-- What is closed has been opened. -/
theorem Paired.opened_mem (h : Paired es) (hc : .closed a ∈ es) : .opened a ∈ es := by
  obtain ⟨i, hi⟩ := List.mem_iff_getElem?.mp hc
  obtain ⟨j, ⟨-, hj⟩, -⟩ := h.opened i a hi
  exact List.mem_of_getElem? hj

end Pairing

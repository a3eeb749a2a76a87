import Mathlib.Data.List.Basic
import Mathlib.Data.List.Perm.Basic

/-!
# Partition with a predicate that has effects

The algorithm behind `std::partition` for iterators that go both ways, with a predicate that may
change the element it is asked about. One scan goes up to an element that is refused, another
goes down to one that is accepted, and the two are swapped. Every element is asked about once.
-/

namespace Partition

variable {α : Type}

theorem length_dropLast_lt {xs : List α} {y : α} (h : xs.getLast? = some y) :
    xs.dropLast.length < xs.length := by
  obtain ⟨ys, rfl⟩ := List.getLast?_eq_some_iff.mp h
  simp

/-- The elements that are accepted and refused so far lie on both sides of those not yet visited,
with the one to be swapped in front of these while the scan goes down. -/
def scan (pred : α → Bool × α) (accepted : List α) :
    Option α → List α → List α → List α × List α
  | none, [], refused => (accepted, refused)
  | none, x :: middle, refused =>
    let (ok, x) := pred x
    if ok then scan pred (accepted ++ [x]) none middle refused
    else scan pred accepted (some x) middle refused
  | some held, middle, refused =>
    match _h : middle.getLast? with
    | none => (accepted, held :: refused)
    | some y =>
      let (ok, y) := pred y
      if ok then scan pred (accepted ++ [y]) none middle.dropLast (held :: refused)
      else scan pred accepted (some held) middle.dropLast (y :: refused)
termination_by _ middle => middle.length
decreasing_by
  · exact Nat.lt_succ_self _
  · exact Nat.lt_succ_self _
  · exact length_dropLast_lt _h
  · exact length_dropLast_lt _h

/-- The range up to the iterator that is returned, and the one from it on. -/
def partition (pred : α → Bool × α) (xs : List α) : List α × List α := scan pred [] none xs []

/-- The elements that get an answer, as the predicate leaves them. -/
def answered (pred : α → Bool × α) (ok : Bool) (xs : List α) : List α :=
  (xs.filter fun x => (pred x).1 = ok).map fun x => (pred x).2

variable {pred : α → Bool × α} {accepted middle refused : List α} {held : Option α}

theorem answered_cons (pred : α → Bool × α) (ok : Bool) (x : α) (xs : List α) :
    answered pred ok (x :: xs) =
      (if (pred x).1 = ok then [(pred x).2] else []) ++ answered pred ok xs := by
  simp only [answered, List.filter_cons, decide_eq_true_eq]
  split <;> simp

theorem answered_concat (pred : α → Bool × α) (ok : Bool) (xs : List α) (x : α) :
    answered pred ok (xs ++ [x]) =
      answered pred ok xs ++ if (pred x).1 = ok then [(pred x).2] else [] := by
  rw [answered, List.filter_append, List.map_append, ← answered]
  simp only [List.filter_cons, List.filter_nil, decide_eq_true_eq]
  split <;> simp

theorem scan_perm (pred : α → Bool × α) (accepted : List α) (held : Option α)
    (middle refused : List α) :
    (scan pred accepted held middle refused).1.Perm (accepted ++ answered pred true middle) ∧
      (scan pred accepted held middle refused).2.Perm
        (held.toList ++ answered pred false middle ++ refused) := by
  fun_induction scan pred accepted held middle refused with
  | case1 accepted refused => simp [answered]
  | case2 accepted x middle refused x' hpred ih =>
    simpa [answered_cons, hpred] using ih
  | case3 accepted x middle refused ok x' hpred hok ih =>
    simpa [answered_cons, hpred, hok] using ih
  | case4 accepted held middle refused hlast =>
    obtain rfl := List.getLast?_eq_none_iff.mp hlast
    simp [answered]
  | case5 accepted held middle refused y hlast y' hpred ih =>
    obtain ⟨others, rfl⟩ := List.getLast?_eq_some_iff.mp hlast
    rw [List.dropLast_concat] at ih ⊢
    simp only [answered_concat, hpred, if_true, Bool.true_eq_false, if_false, List.append_nil,
      Option.toList_some, List.cons_append]
    constructor
    · refine ih.1.trans ?_
      rw [List.append_assoc]
      exact List.perm_append_comm.append_left accepted
    · exact ih.2.trans List.perm_middle
  | case6 accepted held middle refused y hlast ok y' hpred hok ih =>
    obtain ⟨others, rfl⟩ := List.getLast?_eq_some_iff.mp hlast
    rw [List.dropLast_concat] at ih ⊢
    obtain rfl : ok = false := by simpa using hok
    simpa [answered_concat, hpred] using ih

/-- Each element is asked about once: those that are accepted come first, then the others. -/
theorem partition_perm (pred : α → Bool × α) (xs : List α) :
    (partition pred xs).1.Perm (answered pred true xs) ∧
      (partition pred xs).2.Perm (answered pred false xs) := by
  simpa [partition] using scan_perm pred [] none xs []

theorem answered_map_perm (pred : α → Bool × α) (f : α → α) (xs : List α) :
    ((answered pred true xs).map f ++ answered pred false xs).Perm
      (xs.map fun x => if (pred x).1 then f (pred x).2 else (pred x).2) := by
  induction xs with
  | nil => simp [answered]
  | cons x xs ih =>
    cases hok : (pred x).1 with
    | true => simpa [answered_cons, hok] using ih
    | false =>
      simp only [answered_cons, hok, List.map_cons, Bool.false_eq_true, if_false, if_true,
        List.nil_append, List.cons_append]
      exact List.perm_middle.trans (ih.cons _)

/-- No element gets lost, also where something is done with the accepted ones later. -/
theorem partition_map_perm (pred : α → Bool × α) (f : α → α) (xs : List α) :
    ((partition pred xs).1.map f ++ (partition pred xs).2).Perm
      (xs.map fun x => if (pred x).1 then f (pred x).2 else (pred x).2) := by
  obtain ⟨hfront, hback⟩ := partition_perm pred xs
  exact ((hfront.map f).append hback).trans (answered_map_perm pred f xs)

theorem partition_append_perm (pred : α → Bool × α) (xs : List α) :
    ((partition pred xs).1 ++ (partition pred xs).2).Perm (xs.map fun x => (pred x).2) := by
  simpa using partition_map_perm pred id xs

end Partition

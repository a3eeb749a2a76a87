import Mathlib.Data.List.Nodup
import Mathlib.Data.List.Perm.Basic

/-!
# Lists with distinct keys

Elements that carry their own key, as objects carry their address. While no key occurs twice, such
a list is a finite map: what is found under a key does not depend on the order of the elements,
and removing or changing the first element with a key removes or changes the only one.
-/

namespace Keyed

variable {α κ : Type}

def Distinct (key : α → κ) (xs : List α) : Prop := (xs.map key).Nodup

/-! ## Keys stay distinct -/

section

variable {key : α → κ} {xs ys : List α} {f : α → α}

theorem Distinct.nil : Distinct key [] := List.nodup_nil

theorem Distinct.perm (h : Distinct key xs) (hperm : xs.Perm ys) : Distinct key ys :=
  (hperm.map key).nodup_iff.mp h

theorem Distinct.map (h : Distinct key xs) (hf : ∀ x ∈ xs, key (f x) = key x) :
    Distinct key (xs.map f) := by
  have hkeys : (xs.map f).map key = xs.map key := by
    rw [List.map_map]
    exact List.map_congr_left hf
  rwa [Distinct, hkeys]

theorem Distinct.filter (h : Distinct key xs) (p : α → Bool) : Distinct key (xs.filter p) :=
  List.Nodup.sublist (List.filter_sublist.map key) h

end

variable [DecidableEq κ] (key : α → κ)

/-- The first element with this key. -/
def lookup (k : κ) (xs : List α) : Option α := xs.find? fun x => key x = k

/-- The list without the first element with this key. -/
def erase (k : κ) (xs : List α) : List α := xs.eraseP fun x => key x = k

/-- A change of the first element with this key. -/
def modify (k : κ) (f : α → α) : List α → List α
  | [] => []
  | x :: xs => if key x = k then f x :: xs else x :: modify k f xs

variable {key} {k k' : κ} {x : α} {xs ys : List α} {f : α → α}

/-! ## What is found -/

@[simp] theorem lookup_nil : lookup key k [] = none := rfl

theorem lookup_cons : lookup key k (x :: xs) = if key x = k then some x else lookup key k xs := by
  by_cases h : key x = k
  · simp [lookup, h]
  · simp [lookup, h]

theorem lookup_eq_none : lookup key k xs = none ↔ ∀ x ∈ xs, key x ≠ k := by
  simp [lookup]

theorem mem_of_lookup (h : lookup key k xs = some x) : x ∈ xs ∧ key x = k :=
  ⟨List.mem_of_find?_eq_some h, by simpa using List.find?_some h⟩

theorem Distinct.lookup_eq_some (h : Distinct key xs) :
    lookup key k xs = some x ↔ x ∈ xs ∧ key x = k := by
  refine ⟨mem_of_lookup, fun ⟨hmem, hkey⟩ => ?_⟩
  cases hfound : lookup key k xs with
  | none => exact absurd hkey (lookup_eq_none.mp hfound x hmem)
  | some y =>
    obtain ⟨hy, hykey⟩ := mem_of_lookup hfound
    rw [List.inj_on_of_nodup_map h hy hmem (hykey.trans hkey.symm)]

theorem Distinct.lookup_perm (h : Distinct key xs) (hperm : xs.Perm ys) :
    lookup key k xs = lookup key k ys := by
  have hys : Distinct key ys := (hperm.map key).nodup_iff.mp h
  ext x
  rw [h.lookup_eq_some, hys.lookup_eq_some, hperm.mem_iff]

theorem lookup_concat : lookup key k (xs ++ [x]) =
    (lookup key k xs).or (if key x = k then some x else none) := by
  have hlast : lookup key k [x] = if key x = k then some x else none := lookup_cons
  rw [← hlast]
  exact List.find?_append

theorem lookup_map (hf : ∀ x ∈ xs, key (f x) = key x) :
    lookup key k (xs.map f) = (lookup key k xs).map f := by
  induction xs with
  | nil => rfl
  | cons x xs ih =>
    obtain ⟨hx, hxs⟩ := List.forall_mem_cons.mp hf
    rw [List.map_cons, lookup_cons, lookup_cons, hx, ih hxs]
    split <;> rfl

theorem lookup_modify (hf : ∀ x, key (f x) = key x) : lookup key k' (modify key k f xs) =
    if k' = k then (lookup key k' xs).map f else lookup key k' xs := by
  induction xs with
  | nil => simp [modify]
  | cons x xs ih => grind [modify, lookup_cons]

theorem modify_of_lookup_none (h : lookup key k xs = none) : modify key k f xs = xs := by
  induction xs with
  | nil => rfl
  | cons x xs ih => grind [modify, lookup_cons]

theorem lookup_filter_ne : lookup key k' (xs.filter fun x => key x ≠ k) =
    if k' = k then none else lookup key k' xs := by
  induction xs with
  | nil => simp
  | cons x xs ih => grind [lookup_cons]

/-- With distinct keys, the first element with a key is the only one. -/
theorem Distinct.erase_eq_filter (h : Distinct key xs) :
    erase key k xs = xs.filter fun x => key x ≠ k := by
  induction xs with
  | nil => rfl
  | cons x xs ih =>
    obtain ⟨hx, hxs⟩ := List.nodup_cons.mp (List.map_cons ▸ h : (key x :: xs.map key).Nodup)
    have hrest := ih hxs
    by_cases hkey : key x = k
    · have hothers : ∀ y ∈ xs, key y ≠ k := by
        rintro y hy rfl
        exact hx (hkey ▸ List.mem_map_of_mem hy)
      have hfilter : (x :: xs).filter (fun x => key x ≠ k) = xs := by
        rw [List.filter_cons_of_neg (by simpa using hkey)]
        exact List.filter_eq_self.mpr fun y hy => decide_eq_true (hothers y hy)
      rw [hfilter, erase]
      exact List.eraseP_cons_of_pos (by simpa using hkey)
    · simpa [erase, hkey] using hrest

theorem Distinct.concat (h : Distinct key xs) (hnew : lookup key (key x) xs = none) :
    Distinct key (xs ++ [x]) := by
  rw [Distinct, List.map_append, List.map_singleton, List.nodup_append]
  refine ⟨h, List.nodup_singleton _, fun a ha b hb => ?_⟩
  obtain ⟨y, hy, rfl⟩ := List.mem_map.mp ha
  rw [List.mem_singleton.mp hb]
  exact lookup_eq_none.mp hnew y hy

theorem Distinct.modify (h : Distinct key xs) (hf : ∀ x, key (f x) = key x) :
    Distinct key (modify key k f xs) := by
  have hkeys : (Keyed.modify key k f xs).map key = xs.map key := by
    clear h
    induction xs with
    | nil => rfl
    | cons x xs ih => grind [Keyed.modify]
  rwa [Distinct, hkeys]

end Keyed

import Mathlib.Data.List.Nodup
import Mathlib.Order.Nat
import Mathlib.Tactic.SplitIfs

/-!
# Segments laid around a ring

A ring of `size` addresses with a head. Segments of arbitrary positive length follow each
other from the head and never fill the ring, so that head and end meet only when there is no
segment. Addresses are compared by the distance travelled from the head; indices wrap with a
comparison and a subtraction. A walk around the whole ring meets every address once.
-/

namespace Ring

/-- The number of addresses passed on the way from `head` up to `x`. -/
def dist (size head x : Nat) : Nat := if head ≤ x then x - head else x + size - head

/-- The address `n` places after `head`. -/
def advance (size head n : Nat) : Nat := if head + n < size then head + n else head + n - size

variable {size head p x y n m : Nat}

@[simp] theorem dist_self : dist size head head = 0 := by simp [dist]

theorem advance_lt (hh : head < size) (hn : n ≤ size) : advance size head n < size := by
  unfold advance; split_ifs <;> omega

@[simp] theorem advance_zero (hh : head < size) : advance size head 0 = head := by
  simp [advance, hh]

theorem advance_advance (hh : head < size) (h : n + m ≤ size) :
    advance size (advance size head n) m = advance size head (n + m) := by
  unfold advance; split_ifs <;> omega

theorem dist_advance (hh : head < size) (hn : n < size) :
    dist size head (advance size head n) = n := by
  unfold dist advance; split_ifs <;> omega

theorem dist_of_advance (hh : head < size) (hx : x < size) (hn : n ≤ size)
    (h : n + dist size (advance size head n) x < size) :
    dist size head x = n + dist size (advance size head n) x := by
  revert h; unfold dist advance; split_ifs <;> omega

/-! ## Once around -/

/-- The address behind `x`. -/
def next (size x : Nat) : Nat := if x + 1 = size then 0 else x + 1

theorem next_advance (hh : head < size) (hn : n < size) :
    next size (advance size head n) = advance size head (n + 1) := by
  unfold next advance; split_ifs <;> omega

@[simp] theorem advance_size : advance size head size = head := by
  unfold advance; split_ifs <;> omega

theorem advance_inj (hh : head < size) (hn : n < size) (hm : m < size) :
    advance size head n = advance size head m ↔ n = m := by
  refine ⟨fun h => ?_, fun h => h ▸ rfl⟩
  have hdist := congrArg (dist size head) h
  rwa [dist_advance hh hn, dist_advance hh hm] at hdist

theorem exists_advance (hh : head < size) (hx : x < size) :
    ∃ n < size, advance size head n = x := by
  by_cases hle : head ≤ x
  · refine ⟨x - head, by omega, ?_⟩
    unfold advance; split_ifs <;> omega
  · refine ⟨x + size - head, by omega, ?_⟩
    unfold advance; split_ifs <;> omega

/-- The first `n` addresses from `head` on. -/
def around (size head n : Nat) : List Nat := (List.range n).map (advance size head)

@[simp] theorem length_around : (around size head n).length = n := by simp [around]

theorem drop_around (hn : n < size) : (around size head size).drop n =
    advance size head n :: (around size head size).drop (n + 1) := by
  have hlen : n < (around size head size).length := by simpa using hn
  rw [List.drop_eq_getElem_cons hlen]
  simp [around]

theorem take_around (hn : n ≤ size) : (around size head size).take n = around size head n := by
  rw [around, around, ← List.map_take, List.take_range, Nat.min_eq_left hn]

theorem around_nodup (hh : head < size) (hn : n ≤ size) : (around size head n).Nodup := by
  refine List.Nodup.map_on (fun i hi j hj h => ?_) List.nodup_range
  rw [List.mem_range] at hi hj
  exact (advance_inj hh (by omega) (by omega)).mp h

theorem mem_around_size (hh : head < size) : x ∈ around size head size ↔ x < size := by
  simp only [around, List.mem_map, List.mem_range]
  constructor
  · rintro ⟨n, hn, rfl⟩
    exact advance_lt hh hn.le
  · exact exists_advance hh

/-! ## Segments -/

/-- Total length of the segments `(start, length)` of a list. -/
def used : List (Nat × Nat) → Nat
  | [] => 0
  | s :: rest => s.2 + used rest

@[simp] theorem used_nil : used [] = 0 := rfl
@[simp] theorem used_cons (s : Nat × Nat) (rest : List (Nat × Nat)) :
    used (s :: rest) = s.2 + used rest := rfl
@[simp] theorem used_append (xs ys : List (Nat × Nat)) :
    used (xs ++ ys) = used xs + used ys := by
  induction xs with
  | nil => simp
  | cons s rest ih => simp [ih]; omega

/-- The segments follow each other from `head` and the next one would start at `stop`. -/
def Chain (size : Nat) : Nat → List (Nat × Nat) → Nat → Prop
  | head, [], stop => head = stop
  | head, s :: rest, stop => s.1 = head ∧ 0 < s.2 ∧ Chain size (advance size head s.2) rest stop

variable {stop mid : Nat} {xs ys zs : List (Nat × Nat)} {s t : Nat × Nat}

theorem Chain.append (h : Chain size head xs mid) (g : Chain size mid ys stop) :
    Chain size head (xs ++ ys) stop := by
  induction xs generalizing head with
  | nil => cases h; exact g
  | cons s rest ih => exact ⟨h.1, h.2.1, ih h.2.2⟩

theorem Chain.split (h : Chain size head (xs ++ ys) stop) :
    ∃ mid, Chain size head xs mid ∧ Chain size mid ys stop := by
  induction xs generalizing head with
  | nil => exact ⟨head, rfl, h⟩
  | cons s rest ih =>
    obtain ⟨mid, hx, hy⟩ := ih h.2.2
    exact ⟨mid, ⟨h.1, h.2.1, hx⟩, hy⟩

/-- The end of a chain is the head advanced by everything used. -/
theorem Chain.stop_eq (h : Chain size head xs stop) (hh : head < size) (hu : used xs ≤ size) :
    stop = advance size head (used xs) := by
  induction xs generalizing head with
  | nil => cases h; simp [hh]
  | cons s rest ih =>
    simp only [used_cons] at hu ⊢
    rw [ih h.2.2 (advance_lt hh (by omega)) (by omega), advance_advance hh hu]

theorem Chain.stop_unique {stop' : Nat} (h : Chain size head xs stop)
    (g : Chain size head xs stop') : stop = stop' := by
  induction xs generalizing head with
  | nil => exact h.symm.trans g
  | cons s rest ih => exact ih h.2.2 g.2.2

theorem Chain.used_pos (h : Chain size head xs stop) (hx : xs ≠ []) : 0 < used xs := by
  cases xs with
  | nil => exact absurd rfl hx
  | cons s rest => have := h.2.1; simp only [used_cons]; omega

/-- A non-empty chain that does not fill the ring never ends where it starts. -/
theorem Chain.ne_of_ne_nil (h : Chain size head xs stop) (hh : head < size)
    (hu : used xs < size) (hx : xs ≠ []) : stop ≠ head := by
  have hp := h.used_pos hx
  have hd := dist_advance hh hu
  rw [← h.stop_eq hh hu.le] at hd
  rintro rfl
  simp at hd; omega

theorem Chain.start_lt (h : Chain size head xs stop) (hh : head < size) (hu : used xs < size)
    (hs : s ∈ xs) : s.1 < size := by
  induction xs generalizing head with
  | nil => simp at hs
  | cons t rest ih =>
    simp only [used_cons] at hu
    rcases List.mem_cons.mp hs with rfl | hs
    · exact h.1 ▸ hh
    · exact ih h.2.2 (advance_lt hh (by omega)) (by omega) hs

theorem Chain.stop_lt (h : Chain size head xs stop) (hh : head < size) (hu : used xs < size) :
    stop < size := h.stop_eq hh hu.le ▸ advance_lt hh hu.le

/-- Distance from the head to an address inside the segment that follows `xs`. -/
theorem Chain.dist_inside (h : Chain size head (xs ++ s :: ys) stop) (hh : head < size)
    (hu : used (xs ++ s :: ys) < size) (hx : x < size) (hin : dist size s.1 x < s.2) :
    dist size head x = used xs + dist size s.1 x := by
  obtain ⟨mid, hxs, hys⟩ := h.split
  simp only [used_append, used_cons] at hu
  have hmid := hxs.stop_eq hh (by omega)
  have hs : s.1 = advance size head (used xs) := hys.1.trans hmid
  rw [hs] at hin ⊢
  exact dist_of_advance hh hx (by omega) (by omega)

/-- Addresses of two different segments of a chain are different. -/
theorem Chain.ne_of_inside (h : Chain size head (xs ++ s :: ys ++ t :: zs) stop)
    (hh : head < size) (hu : used (xs ++ s :: ys ++ t :: zs) < size)
    (hx : x < size) (hy : y < size)
    (hin : dist size s.1 x < s.2) (hin' : dist size t.1 y < t.2) : x ≠ y := by
  have h' : Chain size head (xs ++ s :: (ys ++ t :: zs)) stop := by simpa using h
  have hdx := h'.dist_inside hh (by simpa using hu) hx hin
  have hdy := h.dist_inside hh hu hy hin'
  simp only [used_append, used_cons] at hdy
  rintro rfl
  omega

/-- The place where the next segment starts lies in no segment of the chain. -/
theorem Chain.stop_not_inside (h : Chain size head xs stop) (hh : head < size)
    (hu : used xs < size) (hs : s ∈ xs) : ¬ dist size s.1 stop < s.2 := by
  intro hin
  obtain ⟨as, bs, rfl⟩ := List.append_of_mem hs
  have hd := h.dist_inside hh hu (h.stop_lt hh hu) hin
  rw [h.stop_eq hh hu.le, dist_advance hh hu, ← h.stop_eq hh hu.le] at hd
  simp only [used_append, used_cons] at hd
  omega

end Ring

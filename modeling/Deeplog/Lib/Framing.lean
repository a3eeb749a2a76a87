import Mathlib.Algebra.Ring.Nat
import Mathlib.Data.List.Basic

/-!
# Length-prefixed frames

Messages one after the other in one sequence, each behind a head that says how long it is. The
heads may have any length, and nothing keeps the content of a message from looking like a head:
what separates the messages is only that a head is read as it was written, whatever follows it.
-/

namespace Framing

variable {α : Type}

/-- The heads of a format, for messages of the lengths that fit. -/
structure Format (α : Type) where
  head : Nat → List α
  readHead : List α → Option (Nat × List α)
  Fits : Nat → Prop
  head_pos : ∀ n, Fits n → 0 < (head n).length
  readHead_head : ∀ n rest, Fits n → readHead (head n ++ rest) = some (n, rest)

namespace Format

variable (format : Format α)

def frame (message : List α) : List α := format.head message.length ++ message

def frames (messages : List (List α)) : List α := (messages.map format.frame).flatten

/-- What a message takes up with its head. -/
def cost (n : Nat) : Nat := (format.head n).length + n

/-- Where the content of a message is. -/
def position (messages : List (List α)) (i : Nat) : Nat :=
  (format.frames (messages.take i)).length + (messages[i]?.elim 0 fun m =>
    (format.head m.length).length)

/-- All messages of a sequence, as the heads say. -/
def unframe : (fuel : Nat) → List α → Option (List (List α))
  | _, [] => some []
  | 0, _ :: _ => none
  | fuel + 1, a :: rest => do
    let (n, content) ← format.readHead (a :: rest)
    if content.length < n then none
    else
      let messages ← unframe fuel (content.drop n)
      pure (content.take n :: messages)

variable {format : Format α} {messages more : List (List α)} {message : List α} {i o fuel : Nat}

@[simp] theorem frames_nil : format.frames [] = [] := rfl

@[simp] theorem frames_cons :
    format.frames (message :: messages) = format.frame message ++ format.frames messages := rfl

theorem frames_append :
    format.frames (messages ++ more) = format.frames messages ++ format.frames more := by
  simp [frames]

@[simp] theorem length_frame : (format.frame message).length = format.cost message.length := by
  simp [frame, cost]

theorem length_frames :
    (format.frames messages).length = (messages.map fun m => format.cost m.length).sum := by
  induction messages with
  | nil => rfl
  | cons message messages ih => simp [ih]

theorem position_cons_succ :
    format.position (message :: messages) (i + 1) =
      (format.frame message).length + format.position messages i := by
  simp [position]
  omega

theorem position_append (h : i < messages.length) :
    format.position (messages ++ more) i = format.position messages i := by
  rw [position, position, List.take_append_of_le_length (Nat.le_of_lt h),
    List.getElem?_append_left h]

theorem position_length : format.position (messages ++ [message]) messages.length =
    (format.frames messages).length + (format.head message.length).length := by
  simp [position]

theorem position_add_le (format : Format α) {m : List α} (hi : messages[i]? = some m) :
    format.position messages i + m.length ≤ (format.frames messages).length := by
  obtain ⟨hlt, hget⟩ := List.getElem?_eq_some_iff.mp hi
  have hsplit : messages = messages.take i ++ m :: messages.drop (i + 1) := by
    rw [← hget, List.getElem_cons_drop hlt, List.take_append_drop]
  have hlength := congrArg (fun ms => (format.frames ms).length) hsplit
  simp only [frames_append, frames_cons, List.length_append, length_frame, cost] at hlength
  simp only [position, hi, Option.elim_some]
  omega

/-- Where a message is depends on the lengths of the messages alone. -/
theorem position_congr (h : messages.map List.length = more.map List.length) :
    format.position messages i = format.position more i := by
  have hposition (ms : List (List α)) : format.position ms i =
      (((ms.map List.length).take i).map format.cost).sum +
        ((ms.map List.length)[i]?.elim 0 fun n => (format.head n).length) := by
    rw [position, length_frames, ← List.map_take, List.map_map, List.getElem?_map]
    cases ms[i]? <;> rfl
  rw [hposition, hposition, h]

theorem map_length_modify (o : Nat) (a : α) :
    (messages.modify i fun m => m.set o a).map List.length = messages.map List.length := by
  induction messages generalizing i with
  | nil => simp
  | cons message messages ih =>
    cases i with
    | zero => simp
    | succ i => simp [ih]

/-- Changing a message in place changes its content and no other one. -/
theorem frames_set (format : Format α) {m : List α} (hi : messages[i]? = some m) (ho : o < m.length)
    (a : α) :
    (format.frames messages).set (format.position messages i + o) a =
      format.frames (messages.modify i fun m => m.set o a) := by
  induction messages generalizing i with
  | nil => simp at hi
  | cons message messages ih =>
    cases i with
    | zero =>
      obtain rfl : message = m := by simpa using hi
      have hposition : format.position (message :: messages) 0 =
          (format.head message.length).length := by simp [position]
      have hhead : (format.head message.length).length + o < (format.frame message).length := by
        simp [cost, ho]
      rw [hposition, frames_cons, List.set_append_left _ _ hhead, List.modify_zero_cons,
        frames_cons, frame, frame, List.set_append_right _ _ (Nat.le_add_right ..),
        Nat.add_sub_cancel_left, List.length_set]
    | succ i =>
      have hle : (format.frame message).length ≤
          (format.frame message).length + format.position messages i + o := by omega
      rw [position_cons_succ, frames_cons, List.set_append_right _ _ hle, Nat.add_assoc,
        Nat.add_sub_cancel_left, ih (by simpa using hi)]
      rfl

theorem frame_pos (h : format.Fits message.length) : 0 < (format.frame message).length := by
  have := format.head_pos _ h
  rw [length_frame, cost]
  omega

theorem unframe_frame (h : format.Fits message.length) (rest : List α) :
    format.unframe (fuel + 1) (format.frame message ++ rest) =
      (format.unframe fuel rest).map (message :: ·) := by
  have hread := format.readHead_head message.length (message ++ rest) h
  have hpos := format.head_pos _ h
  rw [frame, List.append_assoc]
  cases hbytes : format.head message.length ++ (message ++ rest) with
  | nil =>
    have hlen := congrArg List.length hbytes
    simp only [List.length_append, List.length_nil] at hlen
    omega
  | cons a tail =>
    rw [hbytes] at hread
    cases hrest : format.unframe fuel rest <;> simp [unframe, hread, hrest]

/-- A sequence of frames is taken apart again. -/
theorem unframe_frames (format : Format α) (hfits : ∀ m ∈ messages, format.Fits m.length)
    (hfuel : (format.frames messages).length ≤ fuel) :
    format.unframe fuel (format.frames messages) = some messages := by
  induction messages generalizing fuel with
  | nil => cases fuel <;> rfl
  | cons message messages ih =>
    have hfit := hfits message (by simp)
    have hpos := frame_pos hfit
    rw [frames_cons, List.length_append] at hfuel
    obtain ⟨fuel, rfl⟩ : ∃ k, fuel = k + 1 := ⟨fuel - 1, by omega⟩
    have hrest : format.unframe fuel (format.frames messages) = some messages :=
      ih (fun m hm => hfits m (by simp [hm])) (by omega)
    rw [frames_cons, unframe_frame hfit, hrest]
    rfl

end Format

end Framing

import Deeplog.Database.Keys

/-!
# The entries of record containers

What an operation on one container does to what is found under a key: a new container comes behind
the others, and a new size is given to the first one with the key.
-/

namespace Deeplog.Database

/-- The entry that `update_record_container_size` finds. -/
def entry (c : Contents) (key : FileSinkId × UInt32) : Option RecordContainerMeta :=
  c.recordContainers.find? fun rcm => rcm.key = key

/-- The rotation for which `create_record_container` has created a file. -/
def newRotation (sinkId : FileSinkId) (opens : List OpenOutcome) (c : Contents) : Option UInt32 :=
  let lastRotation := lastContainerRotation sinkId
    (c.recordContainers ++ [⟨[], 0, sinkId, 0⟩])
  openRetry lastRotation (lastRotation + 1) opens

variable {c stored : Contents} {key other : FileSinkId × UInt32}

/-- An entry that is modified is still the first one. -/
theorem find?_modify {α : Type} {p : α → Bool} (f : α → α) (hp : ∀ a, p (f a) = p a) {xs : List α}
    {i : Nat} (h : xs.findIdx? p = some i) : (xs.modify i f).find? p = (xs.find? p).map f := by
  induction xs generalizing i with
  | nil => cases h
  | cons x xs ih =>
    rw [List.findIdx?_cons] at h
    by_cases hx : p x
    · rw [if_pos hx] at h
      cases h
      simp [List.modify_cons, hp, hx]
    · rw [if_neg hx] at h
      obtain ⟨j, hj, rfl⟩ := Option.map_eq_some_iff.mp h
      simp [List.modify_succ_cons, hx, ih hj]

/-- Whoever looks for another entry does not notice. -/
theorem find?_modify_other {α : Type} {p q : α → Bool} (f : α → α) (hp : ∀ a, p (f a) = p a)
    (hpq : ∀ a, p a → q a = false) {xs : List α} {i : Nat} (h : xs.findIdx? p = some i) :
    (xs.modify i f).find? q = xs.find? q := by
  induction xs generalizing i with
  | nil => cases h
  | cons x xs ih =>
    rw [List.findIdx?_cons] at h
    by_cases hx : p x
    · rw [if_pos hx] at h
      cases h
      have hfx : p (f x) = true := (hp x).trans hx
      simp [List.modify_cons, hpq x hx, hpq (f x) hfx]
    · rw [if_neg hx] at h
      obtain ⟨j, hj, rfl⟩ := Option.map_eq_some_iff.mp h
      simp [List.modify_succ_cons, List.find?_cons, ih hj]

/-- The entry is given its size, and the other ones are left alone. -/
theorem entry_resized {which : FileSinkId} {rotation size : UInt32}
    (h : stored ∈ (updateRecordContainerSize which rotation size c).stores) :
    entry stored (which, rotation) =
        (entry c (which, rotation)).map (fun rcm => { rcm with byteSize := size }) ∧
      ∀ other ≠ (which, rotation), entry stored other = entry c other := by
  simp only [updateRecordContainerSize] at h
  split at h
  · cases h
  case h_2 i hi =>
    cases List.mem_singleton.mp h
    have hkey : (fun rcm : RecordContainerMeta =>
        decide (rcm.sinkId = which ∧ rcm.rotation = rotation)) =
        fun rcm => decide (rcm.key = (which, rotation)) := by
      funext rcm
      simp [RecordContainerMeta.key]
    rw [hkey] at hi
    constructor
    · exact find?_modify (fun rcm => { rcm with byteSize := size }) (fun _ => rfl) hi
    · intro other hne
      refine find?_modify_other (fun rcm => { rcm with byteSize := size }) (fun _ => rfl) ?_ hi
      intro rcm hrcm
      rw [decide_eq_true_eq] at hrcm
      simpa [hrcm] using hne.symm

/-- There is an entry to be resized. -/
theorem resize_stores {which : FileSinkId} {rotation : UInt32} {rcm : RecordContainerMeta}
    (size : UInt32) (h : entry c (which, rotation) = some rcm) :
    ∃ stored, (updateRecordContainerSize which rotation size c).stores = [stored] := by
  have hfound : ∃ i, c.recordContainers.findIdx? (fun rcm =>
      rcm.sinkId = which ∧ rcm.rotation = rotation) = some i := by
    rw [← Option.isSome_iff_exists, List.findIdx?_isSome, List.any_eq_true]
    refine ⟨rcm, List.mem_of_find?_eq_some h, ?_⟩
    have hkey := List.find?_some h
    simpa [RecordContainerMeta.key] using hkey
  obtain ⟨i, hi⟩ := hfound
  simp only [updateRecordContainerSize, hi]
  exact ⟨_, rfl⟩

theorem resize_keys {which : FileSinkId} {rotation size : UInt32}
    (h : stored ∈ (updateRecordContainerSize which rotation size c).stores) :
    stored.containerKeys = c.containerKeys := by
  simp only [updateRecordContainerSize] at h
  split at h
  · cases h
  case h_2 i hi =>
    cases List.mem_singleton.mp h
    have hfiles := congrArg (List.map Prod.snd)
      (map_file_modify i size c.recordContainers)
    rw [List.map_map, List.map_map] at hfiles
    exact hfiles

theorem rangesMax_map {α β : Type} (proj : β → UInt32) (f : α → β) (xs : List α) :
    rangesMax proj (xs.map f) = (rangesMax (proj ∘ f) xs).map f := by
  cases xs with
  | nil => rfl
  | cons x xs =>
    simp only [List.map_cons, rangesMax, List.foldl_map, Option.map_some,
      Function.comp_apply, Option.some.injEq]
    induction xs generalizing x with
    | nil => rfl
    | cons y xs ih =>
      rw [List.foldl_cons, List.foldl_cons]
      split_ifs
      · exact ih y
      · exact ih x

/-- The new rotation follows from the keys. -/
theorem newRotation_congr (sinkId : FileSinkId) (opens : List OpenOutcome)
    (h : stored.containerKeys = c.containerKeys) :
    newRotation sinkId opens stored = newRotation sinkId opens c := by
  have hkeys : ∀ containers : List RecordContainerMeta,
      lastContainerRotation sinkId containers =
        ((rangesMax (fun key => if key.1 = sinkId then key.2 else 0)
          (containers.map RecordContainerMeta.key)).map Prod.snd).getD 0 := by
    intro containers
    rw [rangesMax_map, Option.map_map]
    rfl
  have hcontainers : stored.recordContainers.map RecordContainerMeta.key =
      c.recordContainers.map RecordContainerMeta.key := h
  simp only [newRotation, hkeys, List.map_append, hcontainers]

theorem createRecordContainer_stores (filename : UInt32 → Bytes) (sinkId : FileSinkId)
    (opens : List OpenOutcome) (c : Contents) :
    (createRecordContainer filename sinkId opens c).stores =
      ((newRotation sinkId opens c).map fun rotation =>
        { c with
          revision := c.revision + 1
          recordContainers := c.recordContainers ++
            [⟨filename rotation, 0, sinkId, rotation⟩] }).toList := by
  simp only [createRecordContainer, newRotation]
  split <;> simp_all [Plan.fail]

theorem entry_created {revision : UInt64} {added : RecordContainerMeta} :
    entry { c with revision := revision, recordContainers := c.recordContainers ++ [added] } key =
      (entry c key).or (if added.key = key then some added else none) := by
  simp [entry, List.find?_append, List.find?_singleton]

end Deeplog.Database

import Deeplog.Cli.LogDisplay
import Deeplog.Database.Contents

/-!
# The grid of the log display

`LogDisplayComponent` brings the records of all containers that it can load into the order of their
timestamps, and `LogDisplayGridComponent` draws rows around the selected one. Whatever keys have
been pressed, the selection is a record, a row is drawn for it, and no row without a record.
-/

namespace Deeplog.Cli

open Cbor (Bytes)
open Codec (Record RecordContainer)
open Database (RecordContainerMeta)
open Detail (u64 sub64)

/-! ## The records -/

section Records

variable (load : RecordContainerMeta → Option RecordContainer)

/-- A container that can be loaded goes into the map, unless there is one with its path. -/
def insertLoaded (closed : List (Bytes × RecordContainer)) (container : RecordContainerMeta) :
    List (Bytes × RecordContainer) :=
  match load container with
  | some loaded =>
    if closed.any (·.1 = container.path) then closed else closed ++ [(container.path, loaded)]
  | none => closed

/-- `mClosedContainers`; which order the map has is not known. -/
def closedContainers (containers : List RecordContainerMeta) : List (Bytes × RecordContainer) :=
  containers.foldl (insertLoaded load) []

def notLater (r r' : Record) : Bool := r.timestamp ≤ r'.timestamp

/-- `mDisplayRecords`, which are sorted stably. -/
def displayRecords (closed : List (Bytes × RecordContainer)) : List Record :=
  (closed.flatMap fun container => container.2.records).mergeSort notLater

variable {load} {containers : List RecordContainerMeta}

theorem closedContainers_eq (hpaths : (containers.map RecordContainerMeta.path).Nodup) :
    closedContainers load containers =
      containers.filterMap fun container => (load container).map fun loaded =>
        (container.path, loaded) := by
  have hfold : ∀ closed : List (Bytes × RecordContainer),
      (∀ container ∈ containers, ∀ pair ∈ closed, pair.1 ≠ container.path) →
      containers.foldl (insertLoaded load) closed =
      closed ++ containers.filterMap fun container => (load container).map fun loaded =>
        (container.path, loaded) := by
    induction containers with
    | nil => simp
    | cons container containers ih =>
      intro closed hclosed
      rw [List.map_cons, List.nodup_cons] at hpaths
      obtain ⟨hpath, hpaths⟩ := hpaths
      have hrest : ∀ other ∈ containers, ∀ pair ∈ closed, pair.1 ≠ other.path := fun other hother =>
        hclosed other (List.mem_cons_of_mem _ hother)
      have hnew : closed.any (·.1 = container.path) = false := by
        simpa using hclosed container List.mem_cons_self
      rw [List.foldl_cons]
      cases hload : load container with
      | none =>
        simp only [insertLoaded, hload, List.filterMap_cons, Option.map_none]
        exact ih hpaths closed hrest
      | some loaded =>
        simp only [insertLoaded, hload, hnew, Bool.false_eq_true, if_false]
        rw [ih hpaths]
        · simp [hload]
        · intro other hother pair hpair
          rcases List.mem_append.mp hpair with hpair | hpair
          · exact hrest other hother pair hpair
          · rw [List.mem_singleton.mp hpair]
            intro heq
            have hother' : other.path ∈ containers.map RecordContainerMeta.path :=
              List.mem_map_of_mem hother
            exact hpath (by rwa [← heq] at hother')
  exact (hfold [] (by simp)).trans (List.nil_append _)

theorem displayRecords_perm {closed : List (Bytes × RecordContainer)}
    (hclosed : closed.Perm (closedContainers load containers))
    (hpaths : (containers.map RecordContainerMeta.path).Nodup) :
    (displayRecords closed).Perm ((containers.filterMap load).flatMap RecordContainer.records) := by
  have hflat : ∀ containers : List RecordContainerMeta,
      ((containers.filterMap fun container => (load container).map fun loaded =>
        (container.path, loaded)).flatMap fun container => container.2.records) =
      (containers.filterMap load).flatMap RecordContainer.records := by
    intro containers
    induction containers with
    | nil => rfl
    | cons container containers ih => cases hload : load container <;> simp [hload, ih]
  rw [← hflat, ← closedContainers_eq hpaths]
  exact (List.mergeSort_perm _ _).trans (hclosed.flatMap_right _)

theorem notLater_trans (r₁ r₂ r₃ : Record) (h : notLater r₁ r₂) (h' : notLater r₂ r₃) :
    notLater r₁ r₃ := by
  simp only [notLater, decide_eq_true_eq] at h h' ⊢
  omega

theorem notLater_total (r₁ r₂ : Record) : (notLater r₁ r₂ || notLater r₂ r₁) = true := by
  simp only [notLater, Bool.or_eq_true, decide_eq_true_eq]
  omega

theorem displayRecords_sorted (closed : List (Bytes × RecordContainer)) :
    (displayRecords closed).Pairwise fun r r' => r.timestamp ≤ r'.timestamp := by
  have hsorted := List.pairwise_mergeSort notLater_trans notLater_total
    (closed.flatMap fun container => container.2.records)
  exact hsorted.imp fun h => of_decide_eq_true h

/-- The records of a container whose timestamps do not decrease stay in their order. -/
theorem displayRecords_stable {closed : List (Bytes × RecordContainer)}
    {container : Bytes × RecordContainer} (hmem : container ∈ closed)
    (hordered : container.2.records.Pairwise fun r r' => r.timestamp ≤ r'.timestamp) :
    container.2.records.Sublist (displayRecords closed) := by
  have hsublist : container.2.records.Sublist
      (closed.flatMap fun container => container.2.records) :=
    List.sublist_flatten_of_mem (List.mem_map_of_mem hmem)
  exact List.sublist_mergeSort notLater_trans notLater_total
    (hordered.imp fun h => decide_eq_true h) hsublist

end Records

/-! ## The grid -/

/-- The rows of an `ftxui::Box`. -/
structure Box where
  yMin : Int
  yMax : Int
  inRange : -2 ^ 31 ≤ yMax - yMin ∧ yMax - yMin < 2 ^ 31

structure LogDisplayGrid where
  selected : Nat
  lastLines : Nat
  displayBox : Box

inductive GridEvent where
  | arrowUp | arrowDown | home | end_ | pageUp | pageDown | mouseWithoutButton | other
  deriving DecidableEq

inductive GridOp where
  | render
  | event (focused : Bool) (event : GridEvent)
  /-- `ftxui::reflect` -/
  | reflect (box : Box)

/-- The rows that are drawn, and whether there is to be another frame. -/
structure Rendering where
  first : Nat
  limit : Nat
  requestsFrame : Bool

inductive GridReply where
  | rendered (rendering : Rendering)
  | handled (selectedAnother : Bool)
  | reflected

/-- Half-open. -/
def computeRenderWindow (selected numElements lines : Nat) : Nat × Nat :=
  if numElements ≤ lines then (0, numElements)
  else
    let lineSplit := u64 (lines + 1) / 2
    if selected ≤ lineSplit then (0, lines)
    else if sub64 numElements selected ≤ lineSplit then
      (sub64 numElements lines, numElements)
    else (sub64 selected lineSplit, u64 (selected + lineSplit))

namespace LogDisplayGrid

def start : LogDisplayGrid where
  selected := 0
  lastLines := 0
  displayBox := ⟨0, 2 ^ 31 - 1, by decide⟩

/-- The lines to draw, half as many again when they have become more. -/
def lines (grid : LogDisplayGrid) : Nat :=
  let lines := u64 (((grid.displayBox.yMax - grid.displayBox.yMin) % 2 ^ 64).toNat + 2)
  if grid.lastLines < lines then u64 (lines * 3) / 2 else lines

def onRender (size : Nat) (grid : LogDisplayGrid) : Rendering × LogDisplayGrid :=
  let (first, limit) := computeRenderWindow grid.selected size grid.lines
  (⟨first, limit, grid.lines ≠ grid.lastLines⟩, { grid with lastLines := grid.lines })

/-- `unsigned` -/
def pageSize (grid : LogDisplayGrid) : Nat :=
  (((grid.displayBox.yMax - grid.displayBox.yMin) % 2 ^ 32).toNat + 1) % 2 ^ 32

/-- The selection that an event asks for. -/
def move (grid : LogDisplayGrid) : GridEvent → Nat
  | .arrowUp => if grid.selected ≠ 0 then grid.selected - 1 else grid.selected
  | .arrowDown => u64 (grid.selected + 1)
  | .home => 0
  | .end_ => 2 ^ 64 - 1
  | .pageUp => if grid.selected < grid.pageSize then 0 else grid.selected - grid.pageSize
  | .pageDown => u64 (grid.selected + grid.pageSize)
  | .mouseWithoutButton | .other => grid.selected

def onEvent (size : Nat) (focused : Bool) (event : GridEvent) (grid : LogDisplayGrid) :
    Bool × LogDisplayGrid :=
  if !focused then (false, grid)
  else if event = .mouseWithoutButton then (false, grid)
  else
    let selected := min (grid.move event) (if size ≠ 0 then size - 1 else 0)
    (selected ≠ grid.selected, { grid with selected })

def step (size : Nat) : GridOp → LogDisplayGrid → GridReply × LogDisplayGrid
  | .render, grid =>
    let (rendering, grid) := grid.onRender size
    (.rendered rendering, grid)
  | .event focused event, grid =>
    let (selectedAnother, grid) := grid.onEvent size focused event
    (.handled selectedAnother, grid)
  | .reflect box, grid => (.reflected, { grid with displayBox := box })

/-- Rows are drawn for records only. If the display has any row, one is drawn for the selected
record, and none is left empty that there is a record for. -/
structure Shows (size : Nat) (grid : LogDisplayGrid) (rendering : Rendering) : Prop where
  first_le : rendering.first ≤ rendering.limit
  limit_le : rendering.limit ≤ size
  selected : 0 < size → grid.displayBox.yMin ≤ grid.displayBox.yMax →
    rendering.first ≤ grid.selected ∧ grid.selected < rendering.limit
  filled : grid.displayBox.yMin ≤ grid.displayBox.yMax →
    min size (grid.displayBox.yMax - grid.displayBox.yMin + 1).toNat ≤
      rendering.limit - rendering.first

variable {size : Nat} {grid : LogDisplayGrid}

theorem sub64_eq {a b : Nat} (ha : a < 2 ^ 64) (hle : b ≤ a) : sub64 a b = a - b := by
  unfold sub64 u64
  omega

/-- Nothing wraps around. -/
theorem computeRenderWindow_eq {selected lines : Nat} (hsize : size < 2 ^ 63)
    (hselected : selected < size) (hlines : lines < size) :
    computeRenderWindow selected size lines =
      if selected ≤ (lines + 1) / 2 then (0, lines)
      else if size - selected ≤ (lines + 1) / 2 then (size - lines, size)
      else (selected - (lines + 1) / 2, selected + (lines + 1) / 2) := by
  have hsplit : u64 (lines + 1) = lines + 1 := by
    unfold u64
    omega
  rw [computeRenderWindow, if_neg (by omega)]
  simp only [hsplit, sub64_eq (by omega : size < 2 ^ 64) hselected.le,
    sub64_eq (by omega : size < 2 ^ 64) hlines.le]
  split_ifs with hfirst hlast
  · rfl
  · rfl
  · rw [sub64_eq (by omega) (by omega), u64, Nat.mod_eq_of_lt (by omega)]

/-- The window lies within the records. With two lines or more, it has the selected one. -/
theorem computeRenderWindow_window {selected lines : Nat} (hsize : size < 2 ^ 63)
    (hselected : selected ≤ size - 1) :
    (computeRenderWindow selected size lines).1 ≤ (computeRenderWindow selected size lines).2 ∧
      (computeRenderWindow selected size lines).2 ≤ size ∧
      (0 < size → 2 ≤ lines → (computeRenderWindow selected size lines).1 ≤ selected ∧
        selected < (computeRenderWindow selected size lines).2) ∧
      min size lines ≤ (computeRenderWindow selected size lines).2 -
        (computeRenderWindow selected size lines).1 := by
  by_cases hall : size ≤ lines
  · rw [computeRenderWindow, if_pos hall]
    simp only
    omega
  · rw [computeRenderWindow_eq hsize (by omega) (by omega)]
    split_ifs with hfirst hlast
    · simp only
      omega
    · simp only
      omega
    · simp only
      omega

/-- There are more lines than the display has rows. -/
theorem lt_lines (h : grid.displayBox.yMin ≤ grid.displayBox.yMax) :
    (grid.displayBox.yMax - grid.displayBox.yMin + 1).toNat < grid.lines := by
  obtain ⟨-, hlt⟩ := grid.displayBox.inRange
  have hrows : ((grid.displayBox.yMax - grid.displayBox.yMin) % 2 ^ 64).toNat =
      (grid.displayBox.yMax - grid.displayBox.yMin).toNat := by
    rw [Int.emod_eq_of_lt (by omega) (by omega)]
  have hlines : u64 ((grid.displayBox.yMax - grid.displayBox.yMin).toNat + 2) =
      (grid.displayBox.yMax - grid.displayBox.yMin).toNat + 2 := Nat.mod_eq_of_lt (by omega)
  have hmore : u64 (((grid.displayBox.yMax - grid.displayBox.yMin).toNat + 2) * 3) =
      ((grid.displayBox.yMax - grid.displayBox.yMin).toNat + 2) * 3 := Nat.mod_eq_of_lt (by omega)
  simp only [lines, hrows, hlines, hmore]
  split
  · omega
  · omega

theorem onRender_shows (hsize : size < 2 ^ 63) (hselected : grid.selected ≤ size - 1) :
    Shows size grid (grid.onRender size).1 := by
  obtain ⟨hfirst, hlimit, hwindow, hfilled⟩ := computeRenderWindow_window hsize hselected
  refine ⟨hfirst, hlimit, fun hne hrow => ?_, fun hrow => ?_⟩
  · have hlines := lt_lines hrow
    exact hwindow hne (by omega)
  · have hlines := lt_lines hrow
    exact le_trans (min_le_min_left size hlines.le) hfilled

/-- With the same display, the third frame is the last. -/
theorem onRender_settles (size : Nat) (grid : LogDisplayGrid) :
    (((grid.onRender size).2.onRender size).2.onRender size).1.requestsFrame = false := by
  simp only [onRender, lines]
  grind

theorem step_selected (op : GridOp) (h : grid.selected ≤ size - 1) :
    (step size op grid).2.selected ≤ size - 1 := by
  cases op with
  | render => exact h
  | reflect box => exact h
  | event focused event =>
    simp only [step, onEvent]
    grind

theorem run_selected (size : Nat) (ops : List GridOp) (h : grid.selected ≤ size - 1) :
    (Runs.replies (step size) ops grid).2.selected ≤ size - 1 := by
  induction ops generalizing grid with
  | nil => exact h
  | cons op ops ih => exact ih (step_selected op h)

theorem arrowDowns_selected (hsize : size < 2 ^ 63) (i : Nat) (hi : grid.selected + i < size) :
    (Runs.replies (step size) (List.replicate i (.event true .arrowDown)) grid).2.selected =
      grid.selected + i := by
  induction i generalizing grid with
  | zero => rfl
  | succ i ih =>
    have hnext : (step size (.event true .arrowDown) grid).2.selected = grid.selected + 1 := by
      have hmove : u64 (grid.selected + 1) = grid.selected + 1 := Nat.mod_eq_of_lt (by omega)
      simp only [step, onEvent, move, hmove]
      grind
    have hrest := ih (by rw [hnext]; omega)
    rw [hnext] at hrest
    exact hrest.trans (by omega)

/-- Any record can be reached by keys. -/
theorem arrows_select {i : Nat} (hi : i < size) (hsize : size < 2 ^ 63) (grid : LogDisplayGrid) :
    (Runs.replies (step size)
      (.event true .home :: List.replicate i (.event true .arrowDown)) grid).2.selected = i := by
  have hhome : (step size (.event true .home) grid).2.selected = 0 := by
    simp only [step, onEvent, move]
    grind
  have harrows := arrowDowns_selected hsize i (by rwa [hhome, Nat.zero_add])
  rw [hhome, Nat.zero_add] at harrows
  exact harrows

/-- The records of all containers that can be loaded are displayed, in the order of their
timestamps. Whatever keys are pressed and however the display changes, one of them is selected, it
is drawn, drawing comes to an end, and keys lead to every record. -/
theorem records_displayed (load : RecordContainerMeta → Option RecordContainer)
    (containers : List RecordContainerMeta) {closed : List (Bytes × RecordContainer)}
    (hclosed : closed.Perm (closedContainers load containers))
    (hsize : (displayRecords closed).length < 2 ^ 63) (ops : List GridOp) :
    let size := (displayRecords closed).length
    let grid := (Runs.replies (step size) ops start).2
    ((containers.map RecordContainerMeta.path).Nodup →
      (displayRecords closed).Perm ((containers.filterMap load).flatMap RecordContainer.records)) ∧
    (displayRecords closed).Pairwise (fun r r' => r.timestamp ≤ r'.timestamp) ∧
    (∀ container ∈ closed,
      container.2.records.Pairwise (fun r r' => r.timestamp ≤ r'.timestamp) →
      container.2.records.Sublist (displayRecords closed)) ∧
    (0 < size → grid.selected < size) ∧
    Shows size grid (grid.onRender size).1 ∧
    (((grid.onRender size).2.onRender size).2.onRender size).1.requestsFrame = false ∧
    ∀ i < size, (Runs.replies (step size)
      (.event true .home :: List.replicate i (.event true .arrowDown)) grid).2.selected = i := by
  intro size grid
  have hselected : grid.selected ≤ size - 1 := run_selected size ops (Nat.zero_le _)
  refine ⟨displayRecords_perm hclosed, displayRecords_sorted closed, ?_,
    fun _ => by omega, ?_, ?_, ?_⟩
  · intro container hmem hordered
    exact displayRecords_stable hmem hordered
  · exact onRender_shows hsize hselected
  · exact onRender_settles size grid
  · intro i hi
    exact arrows_select hi hsize grid

def sampleLoad (container : RecordContainerMeta) : Option RecordContainer :=
  if container.rotation = 2 then none
  else some ⟨⟨0, 0⟩, [], [{ Record.blank with timestamp := container.rotation.toNat },
    { Record.blank with timestamp := 7 }]⟩

/-- Of three containers, the last can not be loaded. -/
def sampleListed : List RecordContainerMeta :=
  [⟨[0x61], 0, 0, 0⟩, ⟨[0x62], 0, 0, 1⟩, ⟨[0x63], 0, 0, 2⟩]

theorem records_displayed_sample :
    let closed := closedContainers sampleLoad sampleListed
    let grid := (Runs.replies (step 4) [.reflect ⟨0, 1, by decide⟩, .event true .end_] start).2
    (displayRecords closed).length = 4 ∧
    (displayRecords closed).Perm
      ((sampleListed.filterMap sampleLoad).flatMap RecordContainer.records) ∧
    grid.selected = 3 ∧ Shows 4 grid (grid.onRender 4).1 := by
  intro closed grid
  have hlength : (displayRecords closed).length = 4 := by
    rw [displayRecords, List.length_mergeSort]
    rfl
  have hdisplayed := records_displayed sampleLoad sampleListed (.refl closed) (by omega)
    [.reflect ⟨0, 1, by decide⟩, .event true .end_]
  rw [hlength] at hdisplayed
  obtain ⟨hperm, -, -, -, hshows, -⟩ := hdisplayed
  exact ⟨hlength, hperm (by decide), rfl, hshows⟩

end LogDisplayGrid

end Deeplog.Cli

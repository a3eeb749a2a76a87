import Mathlib.Logic.Function.Basic
import Deeplog.Database.Operations
import Deeplog.Mpsc.Create
import Deeplog.Sink.Container
import Deeplog.Sink.Messages

/-!
# Pruning of message buses

`prune_message_buses` with the files that it works on: a bus is recovered into a new container,
the container is finalised, the file of the bus is unlinked and the entry is erased. What guards
undo on the way out depends on one flag, which stays set until the contents have been stored; so a
failed store removes the container of a bus that is already gone.
-/

namespace Deeplog.Database

open Codec (AttributeArgs ContainerPrimitives)
open Sink (Epoch attributeBytes)
open Sink.Backend (FileOp header makeFile fileStep finalizeFile finalizeFile_run)
open Runs (run)

/-- The files of the root directory, by their paths. -/
abbrev Directory := Bytes → Option File

/-- A file of these bytes. -/
def contentFile (bytes : Bytes) : File := (File.zeros 0).write 0 bytes

/-- What recovery relies on: the functions of deeppack that the bus, its consumer and the sink use,
the output buffer of the sink and the epoch of the clock. -/
structure Recoverer where
  info : Mpsc.InfoCodec
  messages : Sink.Deeppack
  containers : ContainerPrimitives
  writer : Sink.Writer
  epoch : Epoch

namespace Recoverer

variable (env : Recoverer)

/-- `recover_mpsc_bus` on a file that has been opened and locked: the batches given to `consume`. -/
def recoverBus (file : File) (maximumExtent : Bool) : Except Mpsc.Failure (List (List Bytes)) :=
  Mpsc.recoverMpscBus env.info (fun bs => (env.messages.skipItem bs).1.isSome)
    ⟨true, true, true, true, maximumExtent, file⟩ .exclusive

/-- The records that `recover_mpsc_bus` would hand out. -/
def handOut (file : File) : List Bytes :=
  match env.recoverBus file true with
  | .ok batches => batches.flatten
  | .error _ => []

/-- What a sink with the threshold `severity::trace` writes of a message. -/
def copied (message : Bytes) : Bytes := Sink.written 1 (env.messages.preparseMessage message).2

/-- That threshold holds nothing back. -/
theorem copied_eq (message : Bytes) :
    env.copied message = (env.messages.preparseMessage message).2.rawData := by
  unfold copied Sink.written
  cases hinfo : (env.messages.preparseMessage message).2 with
  | record rawData timestamp severity =>
    have hseverity := env.messages.preparseMessage_severity hinfo
    simp [Sink.copyMessage, Sink.MessageInfo.rawData, hseverity]
  | _ => rfl

end Recoverer

theorem length_singleton_le (attr : Codec.Attribute) : [attr].length ≤ 65535 := by
  rw [List.length_singleton]
  decide

def processIdAttribute (processId : UInt32) : AttributeArgs :=
  ⟨[⟨256, .uint64 processId.toUInt64⟩], length_singleton_le _⟩

/-- A file sink that consumes the batches and is finalised: what is in its file then. -/
def Recoverer.recoveryContainer (env : Recoverer) (processId : UInt32)
    (batches : List (List Bytes)) : Option Bytes := do
  let sink ← makeFile env.writer 0
    (attributeBytes env.containers (some (processIdAttribute processId))) env.epoch
  let sink ← run (fileStep env.writer)
    (batches.map fun batch => .messages (batch.map env.copied)) sink
  let sink ← finalizeFile env.writer sink
  sink.closed.head?.map Prod.snd

/-! ## One bus -/

/-- The making of the sink for the recovered messages; where it fails, its file may be there. -/
inductive MakeSink where
  | made
  | failed (leftover : Option Bytes)

/-- Which of the calls for a bus succeed. -/
structure Calls where
  timedOut : Bool
  /-- There is no error but that of a missing file. -/
  mappedFile : Bool
  tryLock : Bool
  makeSink : MakeSink
  cloneBackingFileHandle : Bool
  reopen : Bool
  maximumExtent : Bool
  tryFinalize : Bool
  /-- What is in the container if it has not been finalised. -/
  leftover : Bytes
  unlinkBus : Bool
  retireToStorage : Bool
  unlinkContainer : Bool

/-- How far the loop gets with a bus before it stores the contents. -/
inductive Attempt where
  | timedOut
  | leftAlone (leftover : Option Bytes)
  | missing
  | abandoned (content : Bytes) (returns : Bool)
  | recovered (container : Bytes)

/-- The path of a recovery container. -/
def recoveryPath (candidate : MessageBusMeta) (rotation : UInt32) : Bytes :=
  candidate.path ++ (s!".{FileSinkId.recovered}.{rotation}.dlog").toUTF8.toList

/-- The path of the container that is added for a bus. -/
def Contents.recoveryPath (contents : Contents) (candidate : MessageBusMeta) : Bytes :=
  ((contents.addRecoveryContainer candidate).recordContainers.getLast?.map (·.path)).getD []

section

variable (env : Recoverer) (calls : Calls)

/-- From the recovery of the bus to the unlinking of its file. -/
def recoverInto (candidate : MessageBusMeta) (file : File) : Attempt :=
  if calls.reopen = false then .abandoned calls.leftover true
  else
    let recoverRx := env.recoverBus file calls.maximumExtent
    let batches := match recoverRx with
      | .ok batches => batches
      | .error _ => []
    match env.recoveryContainer candidate.processId batches, calls.tryFinalize with
    | none, _ | _, false => .abandoned calls.leftover false
    | some container, true =>
      match recoverRx with
      | .error .system => .abandoned container false
      | _ => if calls.unlinkBus then .recovered container else .abandoned container false

def attempt (candidate : MessageBusMeta) (contents : Contents) (directory : Directory) : Attempt :=
  if calls.timedOut then .timedOut
  else if candidate.magic ≠ mpscMagic ∨ calls.mappedFile = false then .leftAlone none
  else match directory candidate.path with
    | none => .missing
    | some file =>
      if calls.tryLock = false then .leftAlone none
      else match calls.makeSink, directory (contents.recoveryPath candidate) with
        | _, some _ => .leftAlone none
        | .failed leftover, none => .leftAlone leftover
        | .made, none => recoverInto env calls candidate file

/-- The guards have removed the container. -/
def Calls.rollsBack : Bool := calls.cloneBackingFileHandle && calls.unlinkContainer

/-- What is left of a bus: the directory, the contents if they have been stored, and those with
which the loop goes on if it does. -/
structure Visited where
  directory : Directory
  stored : Option Contents
  next : Option Contents

/-- `eraseBusEntry` -/
def eraseBusEntry (i : Nat) (contents : Contents) (directory rolledBack : Directory) : Visited :=
  if calls.retireToStorage then
    ⟨directory, some (contents.eraseBusEntry i), some (contents.eraseBusEntry i)⟩
  else ⟨rolledBack, none, none⟩

/-- One iteration of the loop. -/
def visit (i : Nat) (candidate : MessageBusMeta) (contents : Contents) (directory : Directory) :
    Visited :=
  let path := contents.recoveryPath candidate
  let leave (content : Bytes) (directory : Directory) :=
    Function.update directory path (some (contentFile content))
  match attempt env calls candidate contents directory with
  | .timedOut => ⟨directory, none, none⟩
  | .leftAlone none => ⟨directory, none, some contents⟩
  | .leftAlone (some leftover) => ⟨leave leftover directory, none, some contents⟩
  | .missing => eraseBusEntry calls i contents directory directory
  | .abandoned content returns =>
    ⟨if calls.rollsBack then directory else leave content directory, none,
      if returns then none else some contents⟩
  | .recovered container =>
    let unlinked := Function.update directory candidate.path none
    let kept := leave container unlinked
    eraseBusEntry calls i (contents.addRecoveryContainer candidate) kept
      (if calls.rollsBack then unlinked else kept)

end

/-! ## All buses -/

structure Pruned where
  directory : Directory
  stores : List Contents
  result : Option Contents

section

variable (env : Recoverer) (calls : Nat → Calls)

/-- The loop over the buses. -/
def pruneFiles : List Nat → Contents → Directory → Pruned
  | [], contents, directory => ⟨directory, [], some contents⟩
  | i :: rest, contents, directory =>
    match contents.messageBuses[i]? with
    | none => ⟨directory, [], some contents⟩
    | some candidate =>
      let visited := visit env (calls i) i candidate contents directory
      match visited.next with
      | none => ⟨visited.directory, visited.stored.toList, none⟩
      | some next =>
        let pruned := pruneFiles rest next visited.directory
        { pruned with stores := visited.stored.toList ++ pruned.stores }

/-- `prune_message_buses`, where the contents may not have been fetched. -/
def pruneMessageBusFiles (fetched : Option Contents) (directory : Directory) : Pruned :=
  match fetched with
  | none => ⟨directory, [], none⟩
  | some contents =>
    let pruned := pruneFiles env calls (List.range contents.messageBuses.length) contents directory
    { pruned with
      result := pruned.result.map fun contents =>
        { contents with messageBuses := contents.liveBuses } }

end

/-! ## What is available -/

namespace Recoverer

variable (env : Recoverer)

/-- A finalised container that holds these messages. -/
def Holds (file : File) (messages : List Bytes) : Prop :=
  ∃ epoch attributes,
    file = contentFile (header epoch attributes ++ (messages.map env.copied).flatten ++ [0xff])

end Recoverer

/-- What stands in the new container when the loop is done with a bus. -/
def Calls.left (calls : Calls) : Attempt → Option Bytes
  | .timedOut | .missing => none
  | .leftAlone leftover => leftover
  | .abandoned content _ => if calls.rollsBack then none else some content
  | .recovered container =>
    if calls.retireToStorage = false ∧ calls.rollsBack = true then none else some container

namespace Recoverer

variable (env : Recoverer) (path : Bytes) (bus : File)

/-- The file is the bus at `path`, or a finalised container with its messages. -/
def Carries (name : Bytes) (file : File) : Prop :=
  name = path ∧ file = bus ∨ env.Holds file (env.handOut bus)

/-- The files by which the bus is available. -/
def carriers (directory : Directory) : Set Bytes :=
  {name | ∃ file ∈ directory name, env.Carries path bus name file}

variable (calls : Nat → Calls)

/-- The iteration leaves a container by which the bus is available. -/
def Leaves (i : Nat) (s : Contents × Directory) : Prop :=
  ∃ candidate ∈ s.1.messageBuses[i]?,
    ∃ content ∈ (calls i).left (attempt env (calls i) candidate s.1 s.2),
      env.Carries path bus (s.1.recoveryPath candidate) (contentFile content)

/-- The iteration unlinks the only file by which the bus is available. Its container does not make
up for that: the contents cannot be stored and the guards remove it, or it is not one of the bus. -/
def Takes (i : Nat) (s : Contents × Directory) : Prop :=
  ∃ candidate ∈ s.1.messageBuses[i]?, ∃ container,
    attempt env (calls i) candidate s.1 s.2 = .recovered container ∧
    env.carriers path bus s.2 = {candidate.path} ∧
    ((calls i).retireToStorage = false ∧ (calls i).rollsBack = true ∨
      ¬env.Carries path bus (s.1.recoveryPath candidate) (contentFile container))

end Recoverer

section

variable {env : Recoverer} {calls : Calls} {candidate : MessageBusMeta} {contents next : Contents}
  {directory : Directory} {file : File} {container : Bytes} {i : Nat}

/-- The sink writes what it has been given. -/
theorem recoveryContainer_eq (env : Recoverer) (processId : UInt32) (batches : List (List Bytes)) :
    env.recoveryContainer processId batches =
      some (header env.epoch
          (attributeBytes env.containers (some (processIdAttribute processId))) ++
        (batches.flatten.map env.copied).flatten ++ [0xff]) := by
  obtain ⟨s, s', hrun, hfinalize, hclosed⟩ := finalizeFile_run env.writer 0
    (attributeBytes env.containers (some (processIdAttribute processId))) env.epoch
    (batches.map fun batch => .messages (batch.map env.copied))
  have hbatches : (batches.map fun batch => FileOp.messages (batch.map env.copied)).flatMap
      FileOp.batch = batches.flatten.map env.copied := by
    rw [List.flatMap_map, List.map_flatten, List.flatMap_def]
    rfl
  rw [hbatches] at hclosed
  obtain ⟨sink, hmake, hsteps⟩ := Option.bind_eq_some_iff.mp hrun
  simp only [Recoverer.recoveryContainer, hmake, hsteps, hfinalize, hclosed, Option.bind_eq_bind,
    Option.bind_some, List.head?_cons, Option.map_some]

/-- The directory without the file of a bus that has been recovered. -/
def unlinked (attempted : Attempt) (candidate : MessageBusMeta) (directory : Directory) :
    Directory :=
  match attempted with
  | .recovered _ => Function.update directory candidate.path none
  | _ => directory

end

section

variable {env : Recoverer} {path : Bytes} {bus : File} {calls : Nat → Calls} {i : Nat}
  {candidate : MessageBusMeta} {contents next : Contents} {directory : Directory}

end

/-! ## The stored contents -/

/-- What the loop that only sees the contents is told about a bus. -/
def Attempt.busFile : Attempt → BusFile
  | .timedOut => .timedOut
  | .leftAlone _ => .leftAlone
  | .missing => .missing
  | .abandoned _ returns => if returns then .failed else .leftAlone
  | .recovered _ => .recovered

theorem pruneLoop_congr {file file' : Nat → BusFile} (n i : Nat) (contents : Contents)
    (h : ∀ j, i ≤ j → file j = file' j) :
    pruneLoop file n i contents = pruneLoop file' n i contents := by
  induction n generalizing i contents with
  | zero => rfl
  | succ n ih =>
    have hrest := fun contents => ih (i + 1) contents fun j hj => h j (by omega)
    simp only [pruneLoop, h i (Nat.le_refl i), hrest]

section

variable {env : Recoverer} {candidate : MessageBusMeta} {contents next : Contents}
  {directory : Directory} {i : Nat}

/-- Where the loop goes on, so does the other one, with the same contents. -/
theorem pruneLoop_visit {calls : Calls} {file : Nat → BusFile} (n : Nat)
    (hbus : contents.messageBuses[i]? = some candidate)
    (hfile : file i = (attempt env calls candidate contents directory).busFile)
    (hnext : (visit env calls i candidate contents directory).next = some next) :
    pruneLoop file (n + 1) i contents =
      ((visit env calls i candidate contents directory).stored.toList ++
        (pruneLoop file n (i + 1) next).1, (pruneLoop file n (i + 1) next).2) := by
  have hmagic : candidate.magic = mpscMagic ∨
      attempt env calls candidate contents directory = .timedOut ∨
      attempt env calls candidate contents directory = .leftAlone none := by
    by_cases hmpsc : candidate.magic = mpscMagic
    · exact .inl hmpsc
    · right
      unfold attempt
      split
      · exact .inl rfl
      · exact .inr (if_pos (.inl hmpsc))
  simp only [pruneLoop, hbus, hfile]
  unfold visit at hnext ⊢
  cases hattempt : attempt env calls candidate contents directory with
  | timedOut =>
    rw [hattempt] at hnext
    cases hnext
  | leftAlone leftover =>
    have hsame : next = contents := by
      cases leftover <;> simpa [hattempt, eq_comm] using hnext
    cases leftover <;> simp [Attempt.busFile, hsame]
  | missing =>
    have hmpsc : candidate.magic = mpscMagic := by simpa [hattempt] using hmagic
    cases hstore : calls.retireToStorage <;> simp [hattempt, eraseBusEntry, hstore] at hnext ⊢
    simp [Attempt.busFile, hmpsc, ← hnext]
  | abandoned content returns =>
    have hmpsc : candidate.magic = mpscMagic := by simpa [hattempt] using hmagic
    cases returns <;> simp [hattempt] at hnext
    simp [Attempt.busFile, hmpsc, ← hnext]
  | recovered container =>
    have hmpsc : candidate.magic = mpscMagic := by simpa [hattempt] using hmagic
    cases hstore : calls.retireToStorage <;> simp [hattempt, eraseBusEntry, hstore] at hnext ⊢
    simp [Attempt.busFile, hmpsc, ← hnext]

/-- A visit that ends the loop has not stored anything. -/
theorem visit_stored {calls : Calls}
    (h : (visit env calls i candidate contents directory).next = none) :
    (visit env calls i candidate contents directory).stored = none := by
  unfold visit at h ⊢
  cases hattempt : attempt env calls candidate contents directory with
  | timedOut => rfl
  | leftAlone leftover => cases leftover <;> rfl
  | abandoned content returns => rfl
  | missing | recovered container =>
    rw [hattempt] at h
    simp only [eraseBusEntry] at h ⊢
    split at h
    · cases h
    case isFalse hstore => rw [if_neg hstore]

end

/-- The contents are stored as by the loop that is told what becomes of the files, up to a store
that fails. -/
theorem pruneFiles_stores (env : Recoverer) (calls : Nat → Calls) (n i : Nat) (contents : Contents)
    (directory : Directory) :
    ∃ file : Nat → BusFile,
      (pruneFiles env calls (List.range' i n) contents directory).stores <+:
        (pruneLoop file n i contents).1 ∧
      ∀ last ∈ (pruneFiles env calls (List.range' i n) contents directory).result,
        pruneLoop file n i contents =
          ((pruneFiles env calls (List.range' i n) contents directory).stores, some last) := by
  induction n generalizing i contents directory with
  | zero =>
    refine ⟨fun _ => .leftAlone, List.nil_prefix, ?_⟩
    rintro _ ⟨⟩
    rfl
  | succ n ih =>
    rw [List.range'_succ]
    cases hbus : contents.messageBuses[i]? with
    | none =>
      simp only [pruneFiles, hbus, pruneLoop]
      refine ⟨fun _ => .leftAlone, List.nil_prefix, ?_⟩
      rintro _ ⟨⟩
      rfl
    | some candidate =>
      simp only [pruneFiles, hbus]
      cases hnext : (visit env (calls i) i candidate contents directory).next with
      | none =>
        simp only [visit_stored hnext, Option.toList_none]
        refine ⟨fun _ => .leftAlone, List.nil_prefix, fun last hlast => ?_⟩
        cases hlast
      | some next =>
        obtain ⟨file, hprefix, hresult⟩ :=
          ih (i + 1) next (visit env (calls i) i candidate contents directory).directory
        let outcome := (attempt env (calls i) candidate contents directory).busFile
        refine ⟨Function.update file i outcome, ?_⟩
        have hrest : pruneLoop (Function.update file i outcome) n (i + 1) next =
            pruneLoop file n (i + 1) next :=
          pruneLoop_congr n (i + 1) next fun j hj => Function.update_of_ne (by omega) _ _
        rw [pruneLoop_visit n hbus (Function.update_self ..) hnext, hrest]
        refine ⟨List.prefix_append_right_inj _ |>.mpr hprefix, fun last hlast => ?_⟩
        rw [hresult last hlast]

theorem pruneMessageBusFiles_stores (env : Recoverer) (calls : Nat → Calls) (cached : Contents)
    (directory : Directory) :
    ∃ file : Nat → BusFile,
      (pruneMessageBusFiles env calls (some cached) directory).stores <+:
        (pruneMessageBuses file cached).stores ∧
      ∀ last ∈ (pruneMessageBusFiles env calls (some cached) directory).result,
        pruneMessageBuses file cached =
          ⟨(pruneMessageBusFiles env calls (some cached) directory).stores, some last⟩ := by
  obtain ⟨file, hprefix, hresult⟩ :=
    pruneFiles_stores env calls cached.messageBuses.length 0 cached directory
  rw [← List.range_eq_range'] at hprefix hresult
  refine ⟨file, hprefix, fun last hlast => ?_⟩
  obtain ⟨pruned, hpruned, rfl⟩ := Option.map_eq_some_iff.mp hlast
  rw [pruneMessageBuses, hresult pruned hpruned]
  rfl

end Deeplog.Database

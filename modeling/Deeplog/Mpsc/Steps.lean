import Deeplog.Lib.Runs
import Deeplog.Mpsc.Slots

/-!
# Steps of producers and of the consumer

The shared state of a bus region with its producers' messages, and the steps that change it:
the `compare_exchange` of `allocate`, its header store, payload writes, the commit of
`do_sync_output`, and the atomic accesses of `read_region` one at a time. A batch of
`read_region` is a sequence of consumer steps, so every run in which batches are not
interrupted is a run of these steps too.
-/

namespace Deeplog.Mpsc

/-- An entry of the arrays `infos` and `msgs` of `read_region`: header position, content
position and rounded size, and the size of the message proper. -/
structure Info where
  head : Nat
  content : Nat
  allocSize : Nat
  msgSize : Nat
  deriving DecidableEq, Repr

/-- Where the consumer is inside of `read_region`. -/
inductive Consumer where
  | idle
  /-- `read_ptr` has been loaded -/
  | loaded (originalReadPos : Nat)
  /-- in the inner loop, which fills the batch -/
  | scanning (originalReadPos readPos : Nat) (infos : List Info)
  /-- behind the inner loop -/
  | gathered (originalReadPos readPos : Nat) (infos : List Info)
  /-- in the loop behind `consumeFn`, before the `fetch_or` -/
  | marking (originalReadPos readPos : Nat) (infos : List Info)
  /-- between the `fetch_or` and the `memset` of one message -/
  | clearing (originalReadPos readPos : Nat) (info : Info) (infos : List Info)
  deriving DecidableEq

/-- A region, its consumer and the history of its messages. `messages` lists every successful
reservation in order; the first `released` of them lie behind the read hand, the first
`cleared` have been handed back by the loop that marks a batch. -/
structure Bus where
  region : Region
  consumer : Consumer
  messages : List Message
  released : Nat
  cleared : Nat
  delivered : List Bytes

def Bus.init : Bus := ⟨.init, .idle, [], 0, 0, []⟩

namespace Bus

/-- Messages reserved by a `compare_exchange` and not yet released by a store of `read_ptr`. -/
def pending (b : Bus) : List Message := b.messages.drop b.released

def setStage (ms : List Message) (i : Nat) (stage : Stage) : List Message :=
  ms.modify i fun m => { m with stage }

/-! ## Producers -/

/-- The successful `compare_exchange` of `allocate`, computed with the given read hand. -/
def reserve (regionEnd readHand payloadSize : Nat) (b : Bus) : Option Bus :=
  match place regionEnd readHand b.region.allocPtr (allocSizeOf payloadSize) with
  | none => none
  | some (payloadPosition, payloadEnd) => some { b with
      region := { b.region with allocPtr := payloadEnd }
      messages := b.messages ++ [{
        ctrl := b.region.allocPtr
        payload := payloadPosition
        size := payloadSize
        stage := .reserved
        bytes := fun o => b.region.data (payloadPosition + o) }] }

/-- The header store at the end of `allocate`. -/
def storeHead (i : Nat) (b : Bus) : Option Bus :=
  match b.messages[i]? with
  | none => none
  | some m =>
    if m.stage = .reserved then some { b with
      region := { b.region with data := storeWord b.region.data m.ctrl (lockedHead m.size) }
      messages := setStage b.messages i .headed }
    else none

/-- A write through the record output buffer, which spans the rounded-up payload. -/
def write (i o : Nat) (value : UInt8) (b : Bus) : Option Bus :=
  match b.messages[i]? with
  | none => none
  | some m =>
    if m.stage = .headed ∧ o < m.allocSize then some { b with
      region := { b.region with data := Function.update b.region.data (m.payload + o) value }
      messages := b.messages.modify i fun m =>
        { m with bytes := Function.update m.bytes o value } }
    else none

/-- `output_buffer::do_sync_output`: the `fetch_and` that commits the message. -/
def commit (i : Nat) (b : Bus) : Option Bus :=
  match b.messages[i]? with
  | none => none
  | some m =>
    if m.stage = .headed then some { b with
      region := { b.region with
        data := storeWord b.region.data m.ctrl (loadWord b.region.data m.ctrl &&& maxMessageSize) }
      messages := setStage b.messages i .committed }
    else none

/-! ## The consumer -/

/-- The header load of the inner loop and what follows from it; `none` if the subspans would
leave the block. -/
def scan (regionEnd originalReadPos readPos : Nat) (infos : List Info) (b : Bus) : Option Bus :=
  let msgHead := loadWord b.region.data readPos
  if Locked msgHead then some { b with consumer := .gathered originalReadPos readPos infos }
  else
    let start := wrapStart regionEnd readPos msgHead
    let allocSize := roundUpP2 msgHead blockSize
    let content := u32 (start + blockSize)
    if content + allocSize ≤ regionEnd then some { b with
      consumer := .scanning originalReadPos (stepOver regionEnd start allocSize)
        (infos ++ [⟨readPos, content, allocSize, msgHead⟩]) }
    else none

/-- The next step of the consumer in `read_region`. -/
def consume (regionEnd : Nat) (b : Bus) : Option Bus :=
  match b.consumer with
  | .idle => some { b with consumer := .loaded b.region.readPtr }
  | .loaded originalReadPos =>
    if b.region.allocPtr = originalReadPos then some { b with consumer := .idle }
    else some { b with consumer := .scanning originalReadPos originalReadPos [] }
  | .scanning originalReadPos readPos infos =>
    if infos.length < consumeBatchSize then scan regionEnd originalReadPos readPos infos b
    else some { b with consumer := .gathered originalReadPos readPos infos }
  | .gathered originalReadPos readPos infos =>
    if infos = [] then
      -- `break`, and the scope guard stores the read hand if it moved
      if readPos = originalReadPos then some { b with consumer := .idle }
      else some { b with
        region := { b.region with readPtr := readPos }
        consumer := .idle
        released := b.cleared }
    else some { b with
      consumer := .marking originalReadPos readPos infos
      delivered := b.delivered ++ infos.map fun i => slice b.region.data i.content i.msgSize }
  | .marking originalReadPos readPos [] =>
    some { b with consumer := .scanning originalReadPos readPos [] }
  | .marking originalReadPos readPos (info :: infos) => some { b with
      region := { b.region with
        data := storeWord b.region.data info.head
          (loadWord b.region.data info.head ||| (messageLockFlag ||| messageConsumedFlag)) }
      consumer := .clearing originalReadPos readPos info infos
      messages := setStage b.messages b.cleared .consumed }
  | .clearing originalReadPos readPos info infos => some { b with
      region := { b.region with data := fill b.region.data info.content info.allocSize 0xfe }
      consumer := .marking originalReadPos readPos infos
      messages := setStage b.messages b.cleared .cleared
      cleared := b.cleared + 1 }

/-! ## Single steps -/

/-- `allocate` behind the size check of `allocate_record_buffer_inplace`, with both hand loads
and the `compare_exchange` as one step. `not_enough_space` leaves the region as it is. -/
def allocate (regionEnd payloadSize : Nat) (b : Bus) : Bus :=
  if maxMessageSize < payloadSize then b
  else (b.reserve regionEnd b.region.readPtr payloadSize).getD b

/-- One step of a producer or of the consumer. -/
inductive Op where
  | allocate (payloadSize : Nat)
  | storeHead (i : Nat)
  | write (i o : Nat) (value : UInt8)
  | commit (i : Nat)
  | consume

def apply (regionEnd : Nat) (op : Op) (b : Bus) : Option Bus :=
  match op with
  | .allocate payloadSize => some (b.allocate regionEnd payloadSize)
  | .storeHead i => b.storeHead i
  | .write i o value => b.write i o value
  | .commit i => b.commit i
  | .consume => b.consume regionEnd

/-- The message of an allocation fits below `2 ^ 32` wherever it is placed. -/
def Op.Fits (regionEnd : Nat) : Op → Prop
  | .allocate payloadSize => regionEnd + allocSizeOf payloadSize < 2 ^ 32
  | _ => True

instance (regionEnd : Nat) : (op : Op) → Decidable (op.Fits regionEnd)
  | .allocate _ => inferInstanceAs (Decidable (_ < _))
  | .storeHead _ | .write _ _ _ | .commit _ | .consume => .isTrue trivial

/-- A list of steps, each of which must be possible where it is taken. -/
abbrev run (regionEnd : Nat) : List Op → Bus → Option Bus := Runs.run (apply regionEnd)

/-! ## What a step of a producer can do -/

section Inversion

variable {regionEnd readHand payloadSize i o : Nat} {value : UInt8} {b b' : Bus}

theorem reserve_cases (h : b.reserve regionEnd readHand payloadSize = some b') :
    ∃ payloadPosition payloadEnd,
      place regionEnd readHand b.region.allocPtr (allocSizeOf payloadSize) =
        some (payloadPosition, payloadEnd) ∧
      b' = { b with
        region := { b.region with allocPtr := payloadEnd }
        messages := b.messages ++ [{
          ctrl := b.region.allocPtr
          payload := payloadPosition
          size := payloadSize
          stage := .reserved
          bytes := fun o => b.region.data (payloadPosition + o) }] } := by
  unfold reserve at h
  cases hp : place regionEnd readHand b.region.allocPtr (allocSizeOf payloadSize) with
  | none => simp [hp] at h
  | some x =>
    simp only [hp, Option.some.injEq] at h
    exact ⟨x.1, x.2, rfl, h.symm⟩

theorem allocate_cases (regionEnd payloadSize : Nat) (b : Bus) :
    b.allocate regionEnd payloadSize = b ∨ payloadSize ≤ maxMessageSize ∧
      b.reserve regionEnd b.region.readPtr payloadSize =
        some (b.allocate regionEnd payloadSize) := by
  unfold allocate
  split
  case isTrue => exact .inl rfl
  case isFalse hsize =>
    cases hr : b.reserve regionEnd b.region.readPtr payloadSize with
    | none => exact .inl rfl
    | some b₁ => exact .inr ⟨Nat.not_lt.mp hsize, rfl⟩

theorem storeHead_cases (h : b.storeHead i = some b') :
    ∃ m, b.messages[i]? = some m ∧ m.stage = .reserved ∧ b' = { b with
      region := { b.region with data := storeWord b.region.data m.ctrl (lockedHead m.size) }
      messages := setStage b.messages i .headed } := by
  unfold storeHead at h
  split at h
  case h_1 => cases h
  case h_2 m hi =>
    split at h
    case isTrue hs => cases h; exact ⟨m, hi, hs, rfl⟩
    case isFalse => cases h

theorem write_cases (h : b.write i o value = some b') :
    ∃ m, b.messages[i]? = some m ∧ m.stage = .headed ∧ o < m.allocSize ∧ b' = { b with
      region := { b.region with data := Function.update b.region.data (m.payload + o) value }
      messages := b.messages.modify i fun m =>
        { m with bytes := Function.update m.bytes o value } } := by
  unfold write at h
  split at h
  case h_1 => cases h
  case h_2 m hi =>
    split at h
    case isTrue hs => cases h; exact ⟨m, hi, hs.1, hs.2, rfl⟩
    case isFalse => cases h

theorem commit_cases (h : b.commit i = some b') :
    ∃ m, b.messages[i]? = some m ∧ m.stage = .headed ∧ b' = { b with
      region := { b.region with
        data := storeWord b.region.data m.ctrl (loadWord b.region.data m.ctrl &&& maxMessageSize) }
      messages := setStage b.messages i .committed } := by
  unfold commit at h
  split at h
  case h_1 => cases h
  case h_2 m hi =>
    split at h
    case isTrue hs => cases h; exact ⟨m, hi, hs, rfl⟩
    case isFalse => cases h

end Inversion

end Bus

end Deeplog.Mpsc

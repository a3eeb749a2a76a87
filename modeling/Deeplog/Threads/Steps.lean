import Deeplog.Mpsc.Allocate
import Deeplog.Mpsc.CrashRecovery
import Deeplog.Pipeline

/-!
# Threads that log on a shared bus

Any number of threads send records and span messages through an `mpsc_bus_handle`, each in its own
time: `allocate_record_buffer_inplace` goes from one region to the next until there is room, the
message is written byte by byte, and the guard commits it. What the consumer is given of a region
are the messages that were sent there, whole and in the order in which their slots were reserved.
-/

namespace Deeplog.Threads

open Cbor (Bytes)
open Codec (Sent SpanPrimitives Kind)
open Mpsc (Handle WholeBus Shared Access Producer Message maxMessageSize allocSizeOf u32
  hashToIndex)

/-! ## Threads -/

/-- Where a thread is that sends messages. -/
inductive Thread where
  | idle
  /-- in the loop of `allocate_record_buffer_inplace` -/
  | allocating (m : Sent) (firstRegionId regionId : Nat)
  /-- `o` bytes of message `i` of a region have been written -/
  | writing (m : Sent) (which i o : Nat)

/-- A bus with the threads that send messages. -/
structure System where
  bus : WholeBus
  threads : Nat → Thread
  /-- what has been reserved in each region, in this order -/
  sent : Nat → List Sent

inductive Op where
  /-- a message for the bus, with the value that its span or its thread is spread by -/
  | send (p : Nat) (m : Sent) (spread : UInt32)
  /-- the next access of a thread; a `compare_exchange_weak` may fail without a reason -/
  | next (p : Nat) (spurious : Bool)
  | createSpan (request : Source.SpanRequest)
  /-- the next step of `consume_messages` -/
  | consume

section

variable (dp : SpanPrimitives) (partly : Bytes → Nat → Nat)

/-- What the writes of a message leave in its buffer, which is all of it unless one fails. -/
def stored (m : Sent) : Bytes :=
  (Pipeline.emitAll partly (allocSizeOf (m.msgSize dp)) (m.pieces dp) []).2

namespace Thread

/-- The access that a thread makes next, and the region that it is made to. -/
def next (p : Nat) (spurious : Bool) (producers : Nat → Nat → Producer) :
    Thread → Option (Nat × Access)
  | .idle => none
  | .allocating m _ regionId =>
    some (regionId, match producers regionId p with
      | .idle => .loadRead p (m.msgSize dp)
      | .readLoaded _ _ => .loadAlloc p
      | .allocLoaded _ _ _ => .exchange p spurious
      | .exchanged _ => .storeHead p)
  | .writing m which i o =>
    some (which, match (stored dp partly m)[o]? with
      | some value => .write i o value
      | none => .commit i)

/-- The next region, unless all of them have been asked. -/
def retry (numRegions : Nat) (m : Sent) (firstRegionId regionId : Nat) : Thread :=
  let incremented := u32 (regionId + 1)
  let next := if incremented = numRegions then 0 else incremented
  if next = firstRegionId then .idle else .allocating m firstRegionId next

/-- What a thread goes on with behind an access, which has led its producer from `before` to
`after`. -/
def behind (numRegions : Nat) (before after : Producer) : Thread → Thread
  | .idle => .idle
  | .allocating m firstRegionId regionId =>
    match before, after with
    | .allocLoaded _ _ _, .idle => retry numRegions m firstRegionId regionId -- `not_enough_space`
    | .exchanged i, _ => .writing m regionId i 0
    | _, _ => .allocating m firstRegionId regionId
  | .writing m which i o =>
    if o < (stored dp partly m).length then .writing m which i (o + 1) else .idle

/-- What an access of a thread has reserved a slot for. -/
def reserved (before after : Producer) : Thread → List Sent
  | .allocating m _ _ =>
    match before, after with
    | .allocLoaded _ _ _, .exchanged _ => [m]
    | _, _ => []
  | .idle | .writing _ _ _ _ => []

end Thread

namespace System

def start (file : File) : System := ⟨.start file, fun _ => .idle, fun _ => []⟩

def producers (s : System) (which : Nat) : Nat → Producer := (s.bus.parties which).producers

def enter (p : Nat) (thread : Thread) (s : System) : System :=
  { s with threads := Function.update s.threads p thread }

/-- The next step of a thread. -/
def advance (self : Handle) (p : Nat) (spurious : Bool) (s : System) : Option System :=
  ((s.threads p).next dp partly p spurious s.producers).bind fun (which, access) =>
    (s.bus.step self (.access which access)).map fun bus =>
      let before := s.producers which p
      let after := (bus.parties which).producers p
      ({ s with
        bus
        sent := Function.update s.sent which (s.sent which ++
          (s.threads p).reserved before after) } : System).enter p
        ((s.threads p).behind dp partly self.numRegions.toNat before after)

def step (self : Handle) (op : Op) (s : System) : Option System :=
  match op with
  | .send p m spread =>
    match s.threads p with
    | .idle =>
      if maxMessageSize < m.msgSize dp then some s -- `not_enough_space`
      else
        let firstRegionId := (hashToIndex spread self.numRegions).toNat
        some (s.enter p (.allocating m firstRegionId firstRegionId))
    | _ => none
  | .next p spurious => s.advance dp partly self p spurious
  | .createSpan request => (s.bus.step self (.createSpan request)).map fun bus => { s with bus }
  | .consume => (s.bus.step self .consume).map fun bus => { s with bus }

abbrev run (self : Handle) : List Op → System → Option System := Runs.run (step dp partly self)

/-- What a step is for the bus. -/
def onBus (op : Op) (s : System) : Option WholeBus.Op :=
  match op with
  | .send _ _ _ => none
  | .next p spurious =>
    ((s.threads p).next dp partly p spurious s.producers).map fun (which, access) =>
      .access which access
  | .createSpan request => some (.createSpan request)
  | .consume => some .consume

end System

/-- An exchange that succeeds would also be tried with the read hand of this moment. -/
def Op.Fresh (self : Handle) (op : Op) (s : System) : Prop :=
  ∀ access ∈ s.onBus dp partly op, access.Fresh self s.bus

/-- What a step has for the bus. -/
def Op.message : Op → Option Sent
  | .send _ m _ => some m
  | .next _ _ | .createSpan _ | .consume => none

end

/-! ## A run of the threads is one of the bus -/

section

variable {dp : SpanPrimitives} {partly : Bytes → Nat → Nat} {self : Handle} {s s' : System}
  {op : Op}

theorem step_onBus (hs : s.step dp partly self op = some s') :
    WholeBus.run self (s.onBus dp partly op).toList s.bus = some s'.bus := by
  cases op with
  | send p m spread =>
    simp only [System.step] at hs
    split at hs
    · split at hs
      · cases hs
        rfl
      · cases hs
        rfl
    · cases hs
  | next p spurious =>
    obtain ⟨⟨which, access⟩, hnext, hmap⟩ := Option.bind_eq_some_iff.mp hs
    obtain ⟨bus, hbus, rfl⟩ := Option.map_eq_some_iff.mp hmap
    simp only [System.onBus, hnext, Option.map_some, Option.toList_some]
    exact Runs.run_cons_eq_some.mpr ⟨bus, hbus, rfl⟩
  | createSpan request =>
    cases hs
    rfl
  | consume =>
    obtain ⟨bus, hbus, rfl⟩ := Option.map_eq_some_iff.mp hs
    exact Runs.run_cons_eq_some.mpr ⟨bus, hbus, rfl⟩

end

/-! ## What is in a region -/

/-- The payload begins with these bytes. -/
def Begins (message : Message) (bs : Bytes) : Prop :=
  ∀ o value, bs[o]? = some value → message.bytes o = value

theorem Begins.content {message : Message} {bs : Bytes} (h : Begins message bs)
    (hle : bs.length ≤ message.size) : ∃ filler, message.content = bs ++ filler := by
  have hbegins : bs <+: message.content := by
    rw [List.prefix_iff_getElem?]
    intro i hi
    have hvalue := h i bs[i] (List.getElem?_eq_getElem hi)
    simp only [Message.content, List.getElem?_map, List.getElem?_range (hi.trans_le hle),
      Option.map_some, hvalue]
  obtain ⟨filler, hcontent⟩ := hbegins
  exact ⟨filler, hcontent.symm⟩

/-- Another byte of a message that is being written. -/
theorem Begins.write {message : Message} {bs : Bytes} {k o : Nat} {value : UInt8}
    (h : Begins message (bs.take k)) (hvalue : bs[o]? = some value) :
    Begins { message with bytes := Function.update message.bytes o value } (bs.take k) := by
  intro i v hi
  by_cases ho : i = o
  · subst ho
    have htake : bs[i]? = some v := by grind
    cases hvalue.symm.trans htake
    exact Function.update_self ..
  · exact (Function.update_of_ne ho ..).trans (h i v hi)

theorem Begins.write_next {message : Message} {bs : Bytes} {o : Nat} {value : UInt8}
    (h : Begins message (bs.take o)) (hvalue : bs[o]? = some value) :
    Begins { message with bytes := Function.update message.bytes o value } (bs.take (o + 1)) := by
  intro i v hi
  by_cases ho : i = o
  · subst ho
    have htake : bs[i]? = some v := by grind
    cases hvalue.symm.trans htake
    exact Function.update_self ..
  · refine (Function.update_of_ne ho ..).trans (h i v ?_)
    grind

section

variable (dp : SpanPrimitives) (knownTypes : Nat → Option Kind)

/-- A message that the bus does not refuse for its size alone. -/
structure Sendable (m : Sent) : Prop where
  valid : m.Valid dp knownTypes
  size : m.msgSize dp ≤ maxMessageSize

/-- A slot for a message, which has been written by the time the slot is committed. -/
structure Carried (m : Sent) (message : Message) : Prop where
  sendable : Sendable dp knownTypes m
  size : message.size = m.msgSize dp
  whole : message.entry ≠ none → Begins message (m.bytes dp)

/-- A producer that works for a thread. -/
def For (m : Sent) (sent : List Sent) : Producer → Prop
  | .idle => True
  | .readLoaded payloadSize _ | .allocLoaded payloadSize _ _ => payloadSize = m.msgSize dp
  | .exchanged i => sent[i]? = some m

/-- Where a thread is, seen from a region and from its producer there. -/
def Thread.At (which : Nat) (sent : List Sent) (messages : List Message) (producer : Producer) :
    Thread → Prop
  | .idle => producer = .idle
  | .allocating m _ regionId =>
    Sendable dp knownTypes m ∧
      if regionId = which then For dp m sent producer else producer = .idle
  | .writing m regionId i o =>
    producer = .idle ∧ (regionId = which → sent[i]? = some m ∧
      ∀ message, messages[i]? = some message → Begins message ((m.bytes dp).take o))

/-- A region with the threads. Slots that are not committed are in the hands of a thread. -/
structure Occupied (which : Nat) (threads : Nat → Thread) (sent : List Sent)
    (messages : List Message) (producers : Nat → Producer) : Prop where
  length_eq : sent.length = messages.length
  carried : ∀ (i : Nat) m message, sent[i]? = some m → messages[i]? = some message →
    Carried dp knownTypes m message
  placed : ∀ p, (threads p).At dp knownTypes which sent messages (producers p)
  reserved : ∀ (i : Nat) message, messages[i]? = some message → message.stage = .reserved →
    ∃ p, producers p = .exchanged i
  headed : ∀ (i : Nat) message, messages[i]? = some message → message.stage = .headed →
    ∃ p m o, threads p = .writing m which i o

end

section Occupied

variable {dp : SpanPrimitives} {knownTypes : Nat → Option Kind} {partly : Bytes → Nat → Nat}
  {which regionId p i o : Nat} {threads : Nat → Thread} {thread : Thread} {sent : List Sent}
  {messages messages' : List Message} {producers : Nat → Producer} {producer : Producer} {m : Sent}

/-- The writes of a message succeed. -/
theorem Sendable.stored_eq (h : Sendable dp knownTypes m) : stored dp partly m = m.bytes dp := by
  have hfits := h.valid.fits
  have hround := Mpsc.allocSizeOf_spec h.size
  have hemit : (m.pieces dp).foldlM (Codec.Piece.emit partly (allocSizeOf (m.msgSize dp))) [] =
      some (m.bytes dp) := Codec.emit_of_fits (hfits.1.trans hround.1)
  rw [stored, Pipeline.emitAll_of_fits hemit]

theorem Thread.retry_cases (numRegions : Nat) (m : Sent) (firstRegionId regionId : Nat) :
    Thread.retry numRegions m firstRegionId regionId = .idle ∨
      ∃ next, Thread.retry numRegions m firstRegionId regionId =
        .allocating m firstRegionId next := by
  unfold Thread.retry
  grind

/-- Nothing is lost of what a thread relies on. -/
theorem Thread.At.mono {sent' : List Sent}
    (h : thread.At dp knownTypes which sent messages producer)
    (hsent : ∀ (i : Nat) m, sent[i]? = some m → sent'[i]? = some m)
    (hkeep : ∀ (i : Nat) m message', sent[i]? = some m → messages'[i]? = some message' →
      ∃ message, messages[i]? = some message ∧
        ∀ k, Begins message ((m.bytes dp).take k) → Begins message' ((m.bytes dp).take k)) :
    thread.At dp knownTypes which sent' messages' producer := by
  cases thread with
  | idle => exact h
  | allocating m first regionId =>
    refine ⟨h.1, ?_⟩
    have hfor := h.2
    split_ifs at hfor ⊢
    · cases producer with
      | exchanged i => exact hsent i m hfor
      | idle => exact hfor
      | readLoaded n r => exact hfor
      | allocLoaded n r a => exact hfor
    · exact hfor
  | writing m regionId i o =>
    refine ⟨h.1, fun hregion => ?_⟩
    obtain ⟨hm, hbegins⟩ := h.2 hregion
    refine ⟨hsent i m hm, fun message' hmessage' => ?_⟩
    obtain ⟨message, hmessage, hwrites⟩ := hkeep i m message' hm hmessage'
    exact hwrites o (hbegins message hmessage)

namespace Occupied

variable (h : Occupied dp knownTypes which threads sent messages producers)
include h

/-- A thread that holds no slot of the region goes on. -/
theorem enter (hat : thread.At dp knownTypes which sent messages producer)
    (hnot : ∀ i, producers p ≠ .exchanged i) (hout : ∀ m i o, threads p ≠ .writing m which i o) :
    Occupied dp knownTypes which (Function.update threads p thread) sent messages
      (Function.update producers p producer) where
  length_eq := h.length_eq
  carried := h.carried
  placed q := by
    by_cases hq : q = p
    · subst hq
      simpa using hat
    · simpa [Function.update_of_ne hq] using h.placed q
  reserved i message hi hs := by
    obtain ⟨q, hq⟩ := h.reserved i message hi hs
    have hne : q ≠ p := by
      rintro rfl
      exact hnot i hq
    exact ⟨q, by rw [Function.update_of_ne hne, hq]⟩
  headed i message hi hs := by
    obtain ⟨q, m, o, hq⟩ := h.headed i message hi hs
    have hne : q ≠ p := by
      rintro rfl
      exact hout m i o hq
    exact ⟨q, m, o, by rw [Function.update_of_ne hne, hq]⟩

/-- The exchange reserves a slot for the message of a thread. -/
theorem reserve {n readHand allocHand first : Nat} {message : Message}
    (hp : threads p = .allocating m first which)
    (hproducer : producers p = .allocLoaded n readHand allocHand)
    (hsize : message.size = n) (hstage : message.stage = .reserved) :
    Occupied dp knownTypes which threads (sent ++ [m]) (messages ++ [message])
      (Function.update producers p (.exchanged messages.length)) := by
  have hat := h.placed p
  rw [hp, hproducer] at hat
  have hfor : n = m.msgSize dp := by simpa [For] using hat.2
  have hlength := h.length_eq
  refine ⟨by simp [hlength], fun i m' message' hm hi => ?_, fun q => ?_, fun i message' hi hs => ?_,
    fun i message' hi hs => ?_⟩
  · by_cases hlt : i < messages.length
    · rw [List.getElem?_append_left (by omega)] at hm hi
      exact h.carried i m' message' hm hi
    · obtain rfl : i = messages.length := by grind
      have hm : m = m' := by grind
      have hi : message = message' := by grind
      subst hm hi
      exact ⟨hat.1, hsize.trans hfor, fun hentry => absurd (by simp [Message.entry, hstage]) hentry⟩
  · by_cases hq : q = p
    · subst hq
      rw [hp, Function.update_self]
      refine ⟨hat.1, ?_⟩
      rw [if_pos rfl]
      show (sent ++ [m])[messages.length]? = some m
      simp [← hlength]
    · rw [Function.update_of_ne hq]
      refine (h.placed q).mono (by grind) fun i m' message' hm hi => ⟨message', ?_, fun _ => id⟩
      grind
  · by_cases hlt : i < messages.length
    · rw [List.getElem?_append_left hlt] at hi
      obtain ⟨q, hq⟩ := h.reserved i message' hi hs
      have hne : q ≠ p := by
        rintro rfl
        rw [hproducer] at hq
        cases hq
      exact ⟨q, by rw [Function.update_of_ne hne, hq]⟩
    · obtain rfl : i = messages.length := by grind
      exact ⟨p, Function.update_self ..⟩
  · have hlt : i < messages.length := by grind
    rw [List.getElem?_append_left hlt] at hi
    exact h.headed i message' hi hs

/-- A thread changes the slot that it holds, and holds no other one of the region. -/
theorem change {f : Message → Message} {message : Message} (hm : sent[i]? = some m)
    (hmessage : messages[i]? = some message)
    (hslot : ∀ j, producers p = .exchanged j → j = i)
    (hwritten : ∀ m j o, threads p = .writing m which j o → j = i)
    (hsize : (f message).size = message.size)
    (hwhole : (f message).entry ≠ none → Begins (f message) (m.bytes dp))
    (hkeep : ∀ k, Begins message ((m.bytes dp).take k) → Begins (f message) ((m.bytes dp).take k))
    (hreserved : (f message).stage ≠ .reserved)
    (hheaded : (f message).stage = .headed → ∃ m o, thread = .writing m which i o)
    (hat : thread.At dp knownTypes which sent (messages.modify i f) .idle) :
    Occupied dp knownTypes which (Function.update threads p thread) sent (messages.modify i f)
      (Function.update producers p .idle) := by
  have hself : (messages.modify i f)[i]? = some (f message) := by simp [hmessage]
  have hother {j : Nat} (hj : j ≠ i) : (messages.modify i f)[j]? = messages[j]? := by
    simp [Ne.symm hj]
  refine ⟨by simp [h.length_eq], fun j m' message' hm' hj => ?_, fun q => ?_,
    fun j message' hj hs => ?_, fun j message' hj hs => ?_⟩
  · by_cases heq : j = i
    · subst heq
      cases hm.symm.trans hm'
      cases hself.symm.trans hj
      have hold := h.carried j m message hm hmessage
      exact ⟨hold.sendable, hsize.trans hold.size, hwhole⟩
    · rw [hother heq] at hj
      exact h.carried j m' message' hm' hj
  · by_cases hq : q = p
    · subst hq
      simpa using hat
    · rw [Function.update_of_ne hq, Function.update_of_ne hq]
      apply (h.placed q).mono (fun _ _ => id)
      intro j m' message' hm' hj
      by_cases heq : j = i
      · subst heq
        cases hm.symm.trans hm'
        cases hself.symm.trans hj
        exact ⟨message, hmessage, hkeep⟩
      · rw [hother heq] at hj
        exact ⟨message', hj, fun _ => id⟩
  · have hne : j ≠ i := by
      rintro rfl
      cases hself.symm.trans hj
      exact hreserved hs
    rw [hother hne] at hj
    obtain ⟨q, hq⟩ := h.reserved j message' hj hs
    have hqp : q ≠ p := by
      rintro rfl
      exact hne (hslot j hq)
    exact ⟨q, by rw [Function.update_of_ne hqp, hq]⟩
  · by_cases heq : j = i
    · subst heq
      cases hself.symm.trans hj
      obtain ⟨m', o, hthread⟩ := hheaded hs
      exact ⟨p, m', o, by rw [Function.update_self, hthread]⟩
    · rw [hother heq] at hj
      obtain ⟨q, m', o, hq⟩ := h.headed j message' hj hs
      have hqp : q ≠ p := by
        rintro rfl
        exact heq (hwritten m' j o hq)
      exact ⟨q, m', o, by rw [Function.update_of_ne hqp, hq]⟩

/-- The header is stored, and the thread begins to write. -/
theorem storeHead {first : Nat} {message : Message} (hp : threads p = .allocating m first which)
    (hproducer : producers p = .exchanged i) (hmessage : messages[i]? = some message) :
    Occupied dp knownTypes which (Function.update threads p (.writing m which i 0)) sent
      (Mpsc.Bus.setStage messages i .headed) (Function.update producers p .idle) := by
  have hat := h.placed p
  rw [hp, hproducer] at hat
  have hm : sent[i]? = some m := by simpa [Thread.At, For] using hat.2
  apply h.change hm hmessage
  · intro j hj
    rw [hproducer] at hj
    cases hj
    rfl
  · intro m' j o hj
    rw [hp] at hj
    cases hj
  · rfl
  · intro hentry
    exact absurd rfl hentry
  · exact fun _ => id
  · intro hstage
    cases hstage
  · exact fun _ => ⟨m, 0, rfl⟩
  · refine ⟨rfl, fun _ => ⟨hm, fun message' _ => ?_⟩⟩
    rw [List.take_zero]
    intro o value ho
    cases ho

section Writing

variable (hp : threads p = .writing m which i o) {message : Message}
  (hmessage : messages[i]? = some message)
include hp hmessage

theorem write {value : UInt8} (hstage : message.stage = .headed)
    (hvalue : (m.bytes dp)[o]? = some value) :
    Occupied dp knownTypes which (Function.update threads p (.writing m which i (o + 1))) sent
      (messages.modify i fun m => { m with bytes := Function.update m.bytes o value })
      (Function.update producers p .idle) := by
  have hat := h.placed p
  rw [hp] at hat
  obtain ⟨hm, hbegins⟩ := hat.2 rfl
  apply h.change hm hmessage
  · intro j hj
    rw [hat.1] at hj
    cases hj
  · intro m' j o hj
    rw [hp] at hj
    cases hj
    rfl
  · rfl
  · intro hentry
    exact absurd (by simp [Message.entry, hstage]) hentry
  · exact fun k hk => hk.write hvalue
  · rw [hstage]
    decide
  · exact fun _ => ⟨m, o + 1, rfl⟩
  · refine ⟨rfl, fun _ => ⟨hm, fun message' hmessage' => ?_⟩⟩
    have heq : message' = { message with bytes := Function.update message.bytes o value } := by
      simpa [hmessage, eq_comm] using hmessage'
    subst heq
    exact (hbegins message hmessage).write_next hvalue

theorem commit (hwhole : (m.bytes dp).length ≤ o) :
    Occupied dp knownTypes which (Function.update threads p .idle) sent
      (Mpsc.Bus.setStage messages i .committed) (Function.update producers p .idle) := by
  have hat := h.placed p
  rw [hp] at hat
  obtain ⟨hm, hbegins⟩ := hat.2 rfl
  apply h.change hm hmessage
  · intro j hj
    rw [hat.1] at hj
    cases hj
  · intro m' j o hj
    rw [hp] at hj
    cases hj
    rfl
  · rfl
  · intro _
    have hall := hbegins message hmessage
    rwa [List.take_of_length_le hwhole] at hall
  · exact fun _ => id
  · intro hstage
    cases hstage
  · intro hstage
    cases hstage
  · rfl

end Writing

/-- The consumer changes the stages of slots that are committed. -/
theorem consume (hlength : messages'.length = messages.length)
    (hkeep : ∀ (i : Nat) message', messages'[i]? = some message' → ∃ message,
      messages[i]? = some message ∧ message'.size = message.size ∧ message'.bytes = message.bytes ∧
        (message'.entry ≠ none → message.entry ≠ none) ∧
        (message'.entry = none → message'.stage = message.stage)) :
    Occupied dp knownTypes which threads sent messages' producers where
  length_eq := h.length_eq.trans hlength.symm
  carried i m message' hm hi := by
    obtain ⟨message, hmessage, hsize, hbytes, hentry, -⟩ := hkeep i message' hi
    have hold := h.carried i m message hm hmessage
    refine ⟨hold.sendable, hsize.trans hold.size, fun hne o value ho => ?_⟩
    rw [hbytes]
    exact hold.whole (hentry hne) o value ho
  placed q := by
    apply (h.placed q).mono (fun _ _ => id)
    intro i m message' hm hi
    obtain ⟨message, hmessage, -, hbytes, -⟩ := hkeep i message' hi
    refine ⟨message, hmessage, fun k hk o value ho => ?_⟩
    rw [hbytes]
    exact hk o value ho
  reserved i message' hi hs := by
    obtain ⟨message, hmessage, -, -, -, hopen⟩ := hkeep i message' hi
    have hstage := hopen (by simp [Message.entry, hs])
    exact h.reserved i message hmessage (hstage ▸ hs)
  headed i message' hi hs := by
    obtain ⟨message, hmessage, -, -, -, hopen⟩ := hkeep i message' hi
    have hstage := hopen (by simp [Message.entry, hs])
    exact h.headed i message hmessage (hstage ▸ hs)

end Occupied

/-- What a step of the consumer does to the slots. -/
theorem consume_keeps {regionEnd : Nat} (hE : regionEnd % 4 = 0) {b b' : Mpsc.Bus}
    (h : b.Ok regionEnd) (hb : b.consume regionEnd = some b') :
    b'.messages.length = b.messages.length ∧
      ∀ (i : Nat) message', b'.messages[i]? = some message' → ∃ message,
        b.messages[i]? = some message ∧ message'.size = message.size ∧
          message'.bytes = message.bytes ∧ (message'.entry ≠ none → message.entry ≠ none) ∧
          (message'.entry = none → message'.stage = message.stage) := by
  have hstages : b'.messages = b.messages ∨ ∃ stage, (stage = .consumed ∨ stage = .cleared) ∧
      b'.messages = Mpsc.Bus.setStage b.messages b.cleared stage := by
    simp only [Mpsc.Bus.consume, Mpsc.Bus.scan] at hb
    grind
  obtain ⟨old, done, todo, batch, rest, hinv⟩ := h
  obtain ⟨_, _, _, _, _, _, -, hadvance⟩ := hinv.consume_step hE
  cases hadvance.step.symm.trans hb
  have hentries := hadvance.entries
  rcases hstages with hsame | ⟨stage, hstage, hset⟩
  · rw [hsame]
    exact ⟨rfl, fun i message hi => ⟨message, hi, rfl, rfl, id, fun _ => rfl⟩⟩
  · refine ⟨by simp [hset, Mpsc.Bus.setStage], fun i message' hi => ?_⟩
    have hentry := congrArg (fun entries => entries[i]?) hentries
    simp only [List.getElem?_map, hi, Option.map_some] at hentry
    rw [hset, Mpsc.Bus.setStage, List.getElem?_modify] at hi
    obtain ⟨message, hmessage, rfl⟩ := Option.map_eq_some_iff.mp hi
    rw [hmessage, Option.map_some, Option.some.injEq] at hentry
    refine ⟨message, hmessage, ?_⟩
    split_ifs at hentry ⊢
    · refine ⟨rfl, rfl, fun hne => hentry ▸ hne, fun hnone => ?_⟩
      rcases hstage with rfl | rfl <;> cases hnone
    · exact ⟨rfl, rfl, id, fun _ => rfl⟩

section Advance

variable {self : Handle} {regionEnd n : Nat} {spurious : Bool} {access : Access}
  {allProducers : Nat → Nat → Producer} {t t' : Shared}

/-- A thread that looks for room makes its next access. -/
theorem Occupied.advance_allocating {first : Nat}
    (h : Occupied dp knownTypes which threads sent t.bus.messages t.producers)
    (hnext : (threads p).next dp partly p spurious allProducers = some (which, access))
    (hproducers : allProducers which = t.producers) (ht : t.step regionEnd access = some t')
    (hp : threads p = .allocating m first regionId) :
    Occupied dp knownTypes which
      (Function.update threads p
        ((threads p).behind dp partly n (t.producers p) (t'.producers p)))
      (sent ++ (threads p).reserved (t.producers p) (t'.producers p)) t'.bus.messages
      t'.producers := by
  have hat := h.placed p
  rw [hp] at hnext hat ⊢
  obtain ⟨rfl, haccess⟩ : regionId = which ∧ _ := by
    simpa only [Thread.next, Option.some.injEq, Prod.mk.injEq] using hnext
  rw [hproducers] at haccess
  have hsame : Function.update threads p (.allocating m first regionId) = threads := by
    rw [← hp, Function.update_eq_self]
  have hout : ∀ m' i o, threads p ≠ .writing m' regionId i o := by
    intro m' i o
    rw [hp]
    intro hcontra
    cases hcontra
  -- an access that reserves nothing
  have henter {producer : Producer} (hproducer : t' = t.enter p producer)
      (hnot : ∀ i, t.producers p ≠ .exchanged i) (thread : Thread)
      (hthread : thread.At dp knownTypes regionId sent t.bus.messages producer) :
      Occupied dp knownTypes regionId (Function.update threads p thread) sent t'.bus.messages
        t'.producers := by
    rw [hproducer]
    exact h.enter hthread hnot hout
  have hentered {producer : Producer} (hproducer : t' = t.enter p producer) :
      t'.producers p = producer := by
    rw [hproducer]
    exact Function.update_self ..
  cases hc : t.producers p with
  | idle =>
    rw [hc] at haccess
    subst haccess
    simp only [Thread.behind, Thread.reserved, List.append_nil]
    rcases Mpsc.Shared.loadRead_cases ht with rfl | ⟨-, hgo⟩
    · rwa [hsame]
    · exact henter hgo (by simp [hc]) _ ⟨hat.1, by simp [For]⟩
  | readLoaded size readHand =>
    rw [hc] at haccess hat
    subst haccess
    simp only [Thread.behind, Thread.reserved, List.append_nil]
    obtain ⟨size', readHand', hc', hgo⟩ := Mpsc.Shared.loadAlloc_cases ht
    cases hc.symm.trans hc'
    exact henter hgo (by simp [hc]) _ ⟨hat.1, by simpa [For] using hat.2⟩
  | allocLoaded size readHand allocHand =>
    rw [hc] at haccess hat
    subst haccess
    have hnot : ∀ i, t.producers p ≠ .exchanged i := by simp [hc]
    obtain ⟨size', readHand', allocHand', hc', hgo | ⟨-, -, -, bus, hb, hgo⟩ | hgo⟩ :=
      Mpsc.Shared.exchange_cases ht
    · simp only [Thread.behind, Thread.reserved, hentered hgo, List.append_nil]
      apply henter hgo hnot
      rcases Thread.retry_cases n m first regionId with hretry | ⟨next, hretry⟩
      · rw [hretry]
        rfl
      · rw [hretry]
        exact ⟨hat.1, by simp [For]⟩
    · cases hc.symm.trans hc'
      obtain ⟨_, _, _, rfl⟩ := Mpsc.Bus.reserve_cases hb
      have hafter : t'.producers p = .exchanged t.bus.messages.length := by
        rw [hgo]
        exact Function.update_self ..
      simp only [Thread.behind, Thread.reserved, hafter, hsame]
      rw [hgo]
      refine h.reserve hp hc ?_ ?_
      · rfl
      · rfl
    · cases hc.symm.trans hc'
      simp only [Thread.behind, Thread.reserved, hentered hgo, List.append_nil]
      exact henter hgo hnot _ ⟨hat.1, by simpa [For] using hat.2⟩
  | exchanged i =>
    rw [hc] at haccess
    subst haccess
    simp only [Shared.step, hc] at ht
    obtain ⟨bus, hb, rfl⟩ := Option.map_eq_some_iff.mp ht
    obtain ⟨message, hmessage, -, rfl⟩ := Mpsc.Bus.storeHead_cases hb
    simp only [Thread.behind, Thread.reserved, List.append_nil]
    exact h.storeHead hp hc hmessage

/-- A thread that writes its message makes its next access. -/
theorem Occupied.advance_writing
    (h : Occupied dp knownTypes which threads sent t.bus.messages t.producers)
    (hnext : (threads p).next dp partly p spurious allProducers = some (which, access))
    (ht : t.step regionEnd access = some t')
    (hp : threads p = .writing m regionId i o) :
    Occupied dp knownTypes which
      (Function.update threads p
        ((threads p).behind dp partly n (t.producers p) (t'.producers p)))
      (sent ++ (threads p).reserved (t.producers p) (t'.producers p)) t'.bus.messages
      t'.producers := by
  have hat := h.placed p
  rw [hp] at hnext hat ⊢
  obtain ⟨rfl, haccess⟩ : regionId = which ∧ _ := by
    simpa only [Thread.next, Option.some.injEq, Prod.mk.injEq] using hnext
  have hidle : Function.update t.producers p .idle = t.producers := by
    rw [← hat.1, Function.update_eq_self]
  obtain ⟨hm, -⟩ := hat.2 rfl
  have hstored {message : Message} (hmessage : t.bus.messages[i]? = some message) :
      stored dp partly m = m.bytes dp :=
    (h.carried i m message hm hmessage).sendable.stored_eq
  simp only [Thread.behind, Thread.reserved, List.append_nil]
  cases hvalue : (stored dp partly m)[o]? with
  | some value =>
    have hlt := (List.getElem?_eq_some_iff.mp hvalue).1
    rw [hvalue] at haccess
    subst haccess
    obtain ⟨bus, hb, rfl⟩ := Option.map_eq_some_iff.mp ht
    obtain ⟨message, hmessage, hstage, -, rfl⟩ := Mpsc.Bus.write_cases hb
    rw [hstored hmessage] at hvalue
    rw [if_pos hlt]
    simpa only [hidle] using h.write hp hmessage hstage hvalue
  | none =>
    have hle := List.getElem?_eq_none_iff.mp hvalue
    rw [hvalue] at haccess
    subst haccess
    obtain ⟨bus, hb, rfl⟩ := Option.map_eq_some_iff.mp ht
    obtain ⟨message, hmessage, -, rfl⟩ := Mpsc.Bus.commit_cases hb
    rw [if_neg (Nat.not_lt.mpr hle)]
    rw [hstored hmessage] at hle
    simpa only [hidle] using h.commit hp hmessage hle

/-- A thread makes its next access in the region where it is. -/
theorem Occupied.advance
    (h : Occupied dp knownTypes which threads sent t.bus.messages t.producers)
    (hnext : (threads p).next dp partly p spurious allProducers = some (which, access))
    (hproducers : allProducers which = t.producers) (ht : t.step regionEnd access = some t') :
    Occupied dp knownTypes which
      (Function.update threads p
        ((threads p).behind dp partly n (t.producers p) (t'.producers p)))
      (sent ++ (threads p).reserved (t.producers p) (t'.producers p)) t'.bus.messages
      t'.producers := by
  cases hp : threads p with
  | idle =>
    rw [hp] at hnext
    cases hnext
  | allocating m first regionId =>
    rw [← hp]
    exact h.advance_allocating hnext hproducers ht hp
  | writing m regionId i o =>
    rw [← hp]
    exact h.advance_writing hnext ht hp

/-- Other regions do not notice. -/
theorem Occupied.elsewhere {other : Nat}
    (h : Occupied dp knownTypes other threads sent messages producers)
    (hnext : (threads p).next dp partly p spurious allProducers = some (which, access))
    (hne : which ≠ other) (before after : Producer) :
    Occupied dp knownTypes other
      (Function.update threads p ((threads p).behind dp partly n before after)) sent messages
      producers := by
  have hat := h.placed p
  cases hp : threads p with
  | idle =>
    rw [hp] at hnext
    cases hnext
  | allocating m first regionId =>
    rw [hp] at hnext hat
    obtain ⟨rfl, -⟩ : regionId = which ∧ _ := by
      simpa only [Thread.next, Option.some.injEq, Prod.mk.injEq] using hnext
    obtain ⟨hm, hidle⟩ := hat
    rw [if_neg hne] at hidle
    have hfree (next : Nat) : (Thread.allocating m first next).At dp knownTypes other sent messages
        .idle := ⟨hm, by simp [For]⟩
    have hthread : (Thread.behind dp partly n before after (.allocating m first regionId)).At dp
        knownTypes other sent messages .idle := by
      simp only [Thread.behind]
      split
      · rcases Thread.retry_cases n m first regionId with hretry | ⟨next, hretry⟩
        · rw [hretry]
          rfl
        · rw [hretry]
          exact hfree next
      · exact ⟨rfl, fun heq => absurd heq hne⟩
      · exact hfree regionId
    have hgo := h.enter hthread (p := p) (by simp [hidle]) (by simp [hp])
    rwa [← hidle, Function.update_eq_self] at hgo
  | writing m regionId i o =>
    rw [hp] at hnext hat
    obtain ⟨rfl, -⟩ : regionId = which ∧ _ := by
      simpa only [Thread.next, Option.some.injEq, Prod.mk.injEq] using hnext
    have hthread : (Thread.behind dp partly n before after (.writing m regionId i o)).At dp
        knownTypes other sent messages .idle := by
      simp only [Thread.behind]
      split
      · exact ⟨rfl, fun heq => absurd heq hne⟩
      · rfl
    have hgo := h.enter hthread (p := p) (by simp [hat.1]) (by simp [hp, hne])
    rwa [← hat.1, Function.update_eq_self] at hgo

end Advance

end Occupied

end Deeplog.Threads

import Deeplog.Lib.Partition
import Deeplog.Sink.Messages

/-!
# From the fabric to its sinks

`retire_log_records` drains the bus into the sinks of a fabric. Each batch goes to the sinks of a
span over the vector of owners; `std::partition` moves those that refuse it to the end, and the
span shrinks to the others. A sink is what its owner points to, so the owners are modelled by
their sinks.
-/

namespace Deeplog.Sink

open Cbor (Bytes)
open Partition (partition partition_map_perm partition_append_perm)

/-- What a backend answers to `bulk_write` and `sync_output`. -/
structure OutputBuffer (β : Type) where
  bulkWrite : Bytes → β → Bool × β
  syncOutput : β → Bool × β

/-- `basic_sink_frontend`, of its last status whether it is a failure. Besides, what has been
appended to the backend, and the batches that the sink has been offered with its answers. -/
structure SinkFrontend (β : Type) where
  id : Nat
  threshold : Nat
  lastStatus : Bool
  backend : β
  appended : Bytes
  offered : List (List MessageInfo × Bool)

/-- `detail::disable_threshold` -/
def disableThreshold : Nat := 0x19

namespace SinkFrontend

variable {β : Type} (out : OutputBuffer β) (s : SinkFrontend β)

def bulkWrite (bs : Bytes) : Bool × SinkFrontend β :=
  let (ok, backend) := out.bulkWrite bs s.backend
  (ok, { s with backend, appended := if ok then s.appended ++ bs else s.appended })

/-- `copy_message_fn`, with its overload for records. -/
def copyMessage : MessageInfo → Bool × SinkFrontend β
  | .record rawData _ severity =>
    if s.threshold ≤ severity then s.bulkWrite out rawData else (true, s)
  | message => s.bulkWrite out message.rawData

/-- `concate_messages` into the backend. -/
def concateMessages (s : SinkFrontend β) : List MessageInfo → Bool × SinkFrontend β
  | [] => (true, s)
  | message :: messages =>
    match s.copyMessage out message with
    | (true, s) => concateMessages s messages
    | (false, s) => (false, s)

def isActive : Bool := decide (s.threshold < disableThreshold) && !s.lastStatus

def tryConsume (_binarySize : Nat) (messages : List MessageInfo) : Bool × SinkFrontend β :=
  if !s.isActive then (false, s)
  else
    match s.concateMessages out messages with
    | (true, s) => (true, s)
    | (false, s) => (false, { s with lastStatus := true })

def trySync : Bool × SinkFrontend β :=
  if !s.isActive then (false, s)
  else
    match out.syncOutput s.backend with
    | (true, backend) => (true, { s with backend })
    | (false, backend) => (false, { s with backend, lastStatus := true })

/-- `try_consume`, noted down. -/
def offer (binarySize : Nat) (messages : List MessageInfo) : Bool × SinkFrontend β :=
  let (ok, s) := s.tryConsume out binarySize messages
  (ok, { s with offered := s.offered ++ [(messages, ok)] })

end SinkFrontend

section Fabric

variable {β : Type} (out : OutputBuffer β) (dp : Deeppack)

/-- `multicast_messages`: the span that is left, and what is behind it. -/
def multicastMessages (sinks : List (SinkFrontend β)) (binarySize : Nat)
    (parses : List MessageInfo) : List (SinkFrontend β) × List (SinkFrontend β) :=
  partition (fun sink => sink.offer out binarySize parses) sinks

/-- `consume_record_fn`: its span, and the rest of the vector that it is a span of. -/
structure ConsumeRecordFn (β : Type) where
  sinks : List (SinkFrontend β)
  behind : List (SinkFrontend β)

/-- A batch of records from the bus. -/
def ConsumeRecordFn.call (drain : ConsumeRecordFn β) (records : List Bytes) : ConsumeRecordFn β :=
  let (binarySize, parses) := dp.preparseMessages records
  let (sinks, refused) := multicastMessages out drain.sinks binarySize parses
  { sinks, behind := refused ++ drain.behind }

def syncSinks (sinks : List (SinkFrontend β)) : List (SinkFrontend β) :=
  let (synced, others) := partition (fun sink => sink.trySync out) sinks
  synced ++ others

/-- `retire_log_records`, given the batches that `consume_messages` drains, and its result. -/
def retireLogRecords {ε : Type} (batches : List (List Bytes)) (consumed : Except ε Unit)
    (sinks : List (SinkFrontend β)) : Except ε Unit × List (SinkFrontend β) :=
  let drain := batches.foldl (ConsumeRecordFn.call out dp) ⟨sinks, []⟩
  let sinks := drain.sinks ++ drain.behind
  match consumed with
  | .error e => (.error e, sinks)
  | .ok () => (.ok (), syncSinks out sinks)

end Fabric

/-! ## A single sink -/

/-- A record whose severity is below the threshold. -/
def MessageInfo.below (threshold : Nat) : MessageInfo → Bool
  | .record _ _ severity => decide (severity < threshold)
  | _ => false

/-- The raw data that a threshold lets through. -/
def passed (threshold : Nat) (messages : List MessageInfo) : Bytes :=
  (messages.filter fun message => !message.below threshold).flatMap MessageInfo.rawData

namespace SinkFrontend

variable {β : Type} (out : OutputBuffer β) {s s' : SinkFrontend β} {ok : Bool}
  {messages : List MessageInfo}

/-- A sink that is offered one batch after the other, until it refuses one. -/
def offerUntilRefused (s : SinkFrontend β) : List (Nat × List MessageInfo) → SinkFrontend β
  | [] => s
  | (binarySize, messages) :: batches =>
    if (s.offer out binarySize messages).1 then
      offerUntilRefused (s.offer out binarySize messages).2 batches
    else (s.offer out binarySize messages).2

/-- What nothing but an offer changes. -/
structure Unoffered (s s' : SinkFrontend β) : Prop where
  id : s'.id = s.id
  threshold : s'.threshold = s.threshold
  offered : s'.offered = s.offered

theorem Unoffered.refl (s : SinkFrontend β) : Unoffered s s := ⟨rfl, rfl, rfl⟩

theorem Unoffered.trans {s₁ s₂ s₃ : SinkFrontend β} (h : Unoffered s₁ s₂) (h' : Unoffered s₂ s₃) :
    Unoffered s₁ s₃ :=
  ⟨h'.id.trans h.id, h'.threshold.trans h.threshold, h'.offered.trans h.offered⟩

theorem bulkWrite_spec {bs : Bytes} (h : s.bulkWrite out bs = (ok, s')) :
    Unoffered s s' ∧ (ok = true → s'.appended = s.appended ++ bs) := by
  cases h
  exact ⟨⟨rfl, rfl, rfl⟩, fun hok => if_pos hok⟩

theorem copyMessage_spec {message : MessageInfo} (h : s.copyMessage out message = (ok, s')) :
    Unoffered s s' ∧
      (ok = true → s'.appended = Sink.copyMessage s.threshold s.appended message) := by
  cases message with
  | record rawData timestamp severity =>
    by_cases hpasses : s.threshold ≤ severity
    · simp only [copyMessage, Sink.copyMessage, hpasses, if_true] at h ⊢
      exact bulkWrite_spec out h
    · simp only [copyMessage, Sink.copyMessage, hpasses, if_false] at h ⊢
      cases h
      exact ⟨.refl s, fun _ => rfl⟩
  | unknown rawData => exact bulkWrite_spec out h
  | spanStart rawData => exact bulkWrite_spec out h
  | spanEnd rawData => exact bulkWrite_spec out h
  | malformed rawData => exact bulkWrite_spec out h

theorem concateMessages_spec (h : s.concateMessages out messages = (ok, s')) :
    Unoffered s s' ∧
      (ok = true → s'.appended = Sink.concateMessages s.appended messages s.threshold) := by
  induction messages generalizing s with
  | nil =>
    cases h
    exact ⟨.refl _, fun _ => rfl⟩
  | cons message messages ih =>
    rw [concateMessages] at h
    rcases hcopy : s.copyMessage out message with ⟨copied, s₁⟩
    obtain ⟨hsame, happended⟩ := copyMessage_spec out hcopy
    rw [hcopy] at h
    cases copied with
    | false =>
      cases h
      exact ⟨hsame, fun hfalse => by cases hfalse⟩
    | true =>
      obtain ⟨hrest, hall⟩ := ih h
      refine ⟨hsame.trans hrest, fun hok => ?_⟩
      rw [hall hok, happended rfl, hsame.threshold]
      rfl

/-- What `try_consume` does to a sink: where it succeeds, the messages are appended. -/
theorem tryConsume_spec {binarySize : Nat} (h : s.tryConsume out binarySize messages = (ok, s')) :
    Unoffered s s' ∧
      (ok = true → s'.appended = s.appended ++ messages.flatMap (written s.threshold)) := by
  rw [tryConsume] at h
  split at h
  · cases h
    exact ⟨.refl s, fun hfalse => by cases hfalse⟩
  · rcases hcopy : s.concateMessages out messages with ⟨copied, s₁⟩
    obtain ⟨hsame, happended⟩ := concateMessages_spec out hcopy
    rw [hcopy] at h
    cases copied <;> cases h
    · exact ⟨⟨hsame.id, hsame.threshold, hsame.offered⟩, fun hfalse => by cases hfalse⟩
    · exact ⟨hsame, fun _ => by rw [happended rfl, concateMessages_eq]⟩

theorem trySync_spec (s : SinkFrontend β) :
    Unoffered s (s.trySync out).2 ∧ (s.trySync out).2.appended = s.appended := by
  rw [trySync]
  split
  · exact ⟨.refl s, rfl⟩
  · split <;> exact ⟨⟨rfl, rfl, rfl⟩, rfl⟩

end SinkFrontend

/-! ## Batches -/

/-- A log of offers and answers that ends with the first refusal, or with the last batch. -/
def UntilRefused (batches : List (List MessageInfo)) (log : List (List MessageInfo × Bool)) :
    Prop :=
  log = batches.map (·, true) ∨
    ∃ accepted refused rest, batches = accepted ++ refused :: rest ∧
      log = accepted.map (·, true) ++ [(refused, false)]

theorem UntilRefused.cons {batches : List (List MessageInfo)} {log : List (List MessageInfo × Bool)}
    (h : UntilRefused batches log) (batch : List MessageInfo) :
    UntilRefused (batch :: batches) ((batch, true) :: log) := by
  rcases h with rfl | ⟨accepted, refused, rest, rfl, rfl⟩
  · exact .inl rfl
  · exact .inr ⟨batch :: accepted, refused, rest, rfl, rfl⟩

/-- What the batches have done to a sink. -/
structure Delivered {β : Type} (batches : List (List MessageInfo)) (s s' : SinkFrontend β) :
    Prop where
  id : s'.id = s.id
  offered : ∃ log, s'.offered = s.offered ++ log ∧ UntilRefused batches log ∧
    (log = batches.map (·, true) →
      s'.appended = s.appended ++ passed s.threshold batches.flatten)

theorem flatMap_written (threshold : Nat) (messages : List MessageInfo) :
    messages.flatMap (written threshold) = passed threshold messages := by
  induction messages with
  | nil => rfl
  | cons message messages ih =>
    rw [List.flatMap_cons, ih, passed, passed, List.filter_cons]
    cases message with
    | record rawData timestamp severity =>
      by_cases hpasses : threshold ≤ severity
      · simp [written, copyMessage, MessageInfo.below, hpasses, MessageInfo.rawData]
      · simp [written, copyMessage, MessageInfo.below, hpasses, Nat.lt_of_not_le hpasses]
    | unknown | spanStart | spanEnd | malformed => rfl

theorem passed_append (threshold : Nat) (a b : List MessageInfo) :
    passed threshold (a ++ b) = passed threshold a ++ passed threshold b := by
  simp [passed]

section Delivery

variable {β : Type} (out : OutputBuffer β)

theorem delivered_offerUntilRefused (s : SinkFrontend β) (batches : List (Nat × List MessageInfo)) :
    (s.offerUntilRefused out batches).threshold = s.threshold ∧
      Delivered (batches.map Prod.snd) s (s.offerUntilRefused out batches) := by
  induction batches generalizing s with
  | nil => exact ⟨rfl, rfl, [], by simp [SinkFrontend.offerUntilRefused], .inl rfl, fun _ => by
      simp [SinkFrontend.offerUntilRefused, passed]⟩
  | cons batch batches ih =>
    obtain ⟨binarySize, messages⟩ := batch
    rcases hconsume : s.tryConsume out binarySize messages with ⟨ok, s₁⟩
    obtain ⟨hsame, happended⟩ := SinkFrontend.tryConsume_spec out hconsume
    have hoffer : s.offer out binarySize messages =
        (ok, { s₁ with offered := s₁.offered ++ [(messages, ok)] }) := by
      rw [SinkFrontend.offer, hconsume]
    rw [SinkFrontend.offerUntilRefused, hoffer]
    cases ok with
    | false =>
      refine ⟨hsame.threshold, hsame.id, [(messages, false)], by rw [← hsame.offered]; rfl,
        .inr ⟨[], messages, _, rfl, rfl⟩, fun hcomplete => ?_⟩
      simp at hcomplete
    | true =>
      obtain ⟨hthreshold, hid, log, hlog, huntil, hall⟩ :=
        ih { s₁ with offered := s₁.offered ++ [(messages, true)] }
      simp only [if_true]
      refine ⟨hthreshold.trans hsame.threshold, hid.trans hsame.id, (messages, true) :: log, ?_,
        huntil.cons messages, fun hcomplete => ?_⟩
      · rw [hlog, hsame.offered]
        simp
      · rw [List.map_cons, List.map_cons, List.cons.injEq] at hcomplete
        rw [hall hcomplete.2]
        simp only [happended rfl, hsame.threshold, flatMap_written, List.map_cons,
          List.flatten_cons, passed_append, List.append_assoc]

/-- The span and what is behind it together are always the sinks that have been offered what
has been drained. -/
theorem foldl_call_perm (dp : Deeppack) (batches : List (List Bytes)) (drain : ConsumeRecordFn β) :
    ((batches.foldl (ConsumeRecordFn.call out dp) drain).sinks ++
        (batches.foldl (ConsumeRecordFn.call out dp) drain).behind).Perm
      (drain.sinks.map (fun s => s.offerUntilRefused out (batches.map dp.preparseMessages)) ++
        drain.behind) := by
  induction batches generalizing drain with
  | nil => simp [SinkFrontend.offerUntilRefused]
  | cons records batches ih =>
    rw [List.foldl_cons]
    refine (ih _).trans ?_
    rw [ConsumeRecordFn.call, ← List.append_assoc]
    exact (partition_map_perm _ _ drain.sinks).append_right drain.behind

theorem Delivered.congr {batches : List (List MessageInfo)} {s s₁ s₂ : SinkFrontend β}
    (h : Delivered batches s s₁) (hsame : SinkFrontend.Unoffered s₁ s₂)
    (happended : s₂.appended = s₁.appended) : Delivered batches s s₂ := by
  obtain ⟨hid, log, hlog, huntil, hall⟩ := h
  exact ⟨hsame.id.trans hid, log, hsame.offered.trans hlog, huntil,
    fun hcomplete => happended.trans (hall hcomplete)⟩

theorem drained_perm (dp : Deeppack) (batches : List (List Bytes)) (sinks : List (SinkFrontend β)) :
    ((batches.foldl (ConsumeRecordFn.call out dp) ⟨sinks, []⟩).sinks ++
        (batches.foldl (ConsumeRecordFn.call out dp) ⟨sinks, []⟩).behind).Perm
      (sinks.map fun s => s.offerUntilRefused out (batches.map dp.preparseMessages)) := by
  simpa using foldl_call_perm out dp batches ⟨sinks, []⟩

/-- Each sink of a fabric is offered the batches up to the first that it refuses. One that refuses
none has appended what its threshold lets through. The owners keep their sinks. -/
theorem retire_delivers {ε : Type} (dp : Deeppack) (batches : List (List Bytes))
    (consumed : Except ε Unit) (sinks : List (SinkFrontend β)) :
    ∃ after : SinkFrontend β → SinkFrontend β,
      (retireLogRecords out dp batches consumed sinks).2.Perm (sinks.map after) ∧
      ((retireLogRecords out dp batches consumed sinks).2.map SinkFrontend.id).Perm
        (sinks.map SinkFrontend.id) ∧
      ∀ s, Delivered (batches.map fun records => (dp.preparseMessages records).2) s (after s) := by
  have hdrained := drained_perm out dp batches sinks
  have hdelivered : ∀ s : SinkFrontend β,
      Delivered (batches.map fun records => (dp.preparseMessages records).2) s
        (s.offerUntilRefused out (batches.map dp.preparseMessages)) := fun s => by
    have h := (delivered_offerUntilRefused out s (batches.map dp.preparseMessages)).2
    rwa [List.map_map] at h
  have hids : ∀ after : SinkFrontend β → SinkFrontend β,
      (∀ s, Delivered (batches.map fun records => (dp.preparseMessages records).2) s (after s)) →
      (sinks.map after).map SinkFrontend.id = sinks.map SinkFrontend.id := fun after h => by
    rw [List.map_map]
    exact List.map_congr_left fun s _ => (h s).id
  cases consumed with
  | error e =>
    exact ⟨_, hdrained, (hids _ hdelivered) ▸ hdrained.map SinkFrontend.id, hdelivered⟩
  | ok =>
    have hsynced : (retireLogRecords out dp batches (.ok () : Except ε Unit) sinks).2.Perm
        (sinks.map fun s =>
          ((s.offerUntilRefused out (batches.map dp.preparseMessages)).trySync out).2) := by
      refine (partition_append_perm _ _).trans ?_
      have hmapped := hdrained.map fun s => (s.trySync out).2
      rwa [List.map_map] at hmapped
    have hafter : ∀ s : SinkFrontend β,
        Delivered (batches.map fun records => (dp.preparseMessages records).2) s
          ((s.offerUntilRefused out (batches.map dp.preparseMessages)).trySync out).2 := fun s =>
      have hsync := SinkFrontend.trySync_spec out
        (s.offerUntilRefused out (batches.map dp.preparseMessages))
      (hdelivered s).congr hsync.1 hsync.2
    exact ⟨_, hsynced, (hids _ hafter) ▸ hsynced.map SinkFrontend.id, hafter⟩

end Delivery

end Deeplog.Sink
